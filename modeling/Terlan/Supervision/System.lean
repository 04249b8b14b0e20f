/-
  Supervisors and their children: restart policies, restart records, and the restart of the
  supervisors below a failed one.

  A method that the source gives one supervisor, or one child, and the process table is a
  method on a cell of the two. The recursion over the tree of supervisors has no bound of its
  own; here it takes the depth of the stack, and a stack that is too small is a panic.
-/
import Terlan.Process.Table

namespace Terlan.Supervision

open Terlan.Lib Terlan.ActorDirectory Terlan.Process
open Std (ExtTreeMap TransOrd TransCmp LawfulEqOrd)

/-! ## Data -/

structure VmSupervisorId where
  value : UInt64
deriving DecidableEq

theorem VmSupervisorId.ext_value {a b : VmSupervisorId} (h : a.value = b.value) : a = b := by
  cases a; cases b; cases h; rfl

instance : Ord VmSupervisorId := ⟨compareOn VmSupervisorId.value⟩

instance : TransOrd VmSupervisorId := inferInstanceAs (TransCmp (compareOn VmSupervisorId.value))

instance : LawfulEqOrd VmSupervisorId :=
  lawfulEqCmp_compareOn fun _ _ => VmSupervisorId.ext_value

inductive VmRestartPolicy where
  | oneForOne
  | oneForAll
  | restForOne
deriving DecidableEq

inductive VmSupervisorState where
  | running
  | failed (childId : String) (pid : VmProcessId) (reason : VmExitReason)
  | childSupervisorFailed (supervisorId : VmSupervisorId) (reason : VmExitReason)

inductive VmSupervisorRestartHistoryOutcome where
  | restarted
  | notRestarted
  | limitReached

structure VmSupervisorRestartHistoryEntry where
  childId : String
  oldPid : VmProcessId
  newPid : Option VmProcessId
  restartCount : UInt32
  reason : VmExitReason
  outcome : VmSupervisorRestartHistoryOutcome
  restartDelayMs : UInt64
  shutdownTimeoutMs : Option UInt64

inductive VmChildRestartClass where
  | permanent
  | transient
  | temporary

def VmChildRestartClass.shouldRestart : VmChildRestartClass → VmExitReason → Bool
  | .permanent, _ => true
  | .transient, .normal => false
  | .transient, _ => true
  | .temporary, _ => false

structure VmRestartBackoffSchedule where
  initialDelayMs : UInt64
  maxDelayMs : UInt64

/-- The capped delay of a restart attempt, counted from one. -/
def VmRestartBackoffSchedule.delayForRestartCount (schedule : VmRestartBackoffSchedule)
    (restartCount : UInt32) : UInt64 :=
  if restartCount = 0 ∨ schedule.initialDelayMs = 0 ∨ schedule.maxDelayMs = 0 then 0
  else
    min (Nat.repeat (fun delay => min (saturatingMul delay 2) schedule.maxDelayMs)
      (restartCount.toNat - 1) schedule.initialDelayMs) schedule.maxDelayMs

structure VmChildSpec where
  id : String
  source : VmProcessSource
  restartLimit : UInt32
  restartClass : VmChildRestartClass
  restartBackoff : Option VmRestartBackoffSchedule
  shutdownTimeout : Option UInt64

namespace VmChildSpec

def restartDelayMs (spec : VmChildSpec) (restartCount : UInt32) : UInt64 :=
  match spec.restartBackoff with
  | some schedule => schedule.delayForRestartCount restartCount
  | none => 0

end VmChildSpec

structure VmSupervisionRestartEvent where
  childId : String
  oldPid : VmProcessId
  newPid : VmProcessId
  restartCount : UInt32
  restartDelayMs : UInt64
  shutdownTimeoutMs : Option UInt64

inductive VmSupervisionRestart where
  | restarted (oldPid newPid : VmProcessId) (restartCount : UInt32) (restartDelayMs : UInt64)
      (shutdownTimeoutMs : Option UInt64)
  | restartedGroup (restarted : List VmSupervisionRestartEvent)
  | notRestarted (pid : VmProcessId) (restartClass : VmChildRestartClass) (reason : VmExitReason)
  | limitReached (pid : VmProcessId) (restartCount : UInt32)

structure VmSupervisorChild where
  spec : VmChildSpec
  pid : VmProcessId
  restartCount : UInt32
  lastRestartDelayMs : UInt64
  lastShutdownTimeoutMs : Option UInt64

structure VmSupervisor where
  id : VmSupervisorId
  parentId : Option VmSupervisorId
  name : String
  policy : VmRestartPolicy
  state : VmSupervisorState
  childOrder : List String
  children : ExtTreeMap String VmSupervisorChild
  restartHistory : List VmSupervisorRestartHistoryEntry

structure VmSupervisionSystem where
  nextSupervisorId : UInt64
  supervisors : ExtTreeMap VmSupervisorId VmSupervisor

/-- The supervision system and the process table that its methods are given. -/
structure Supervised where
  system : VmSupervisionSystem
  processes : VmProcessTable

structure SupervisorCell where
  supervisor : VmSupervisor
  processes : VmProcessTable

structure ChildCell where
  child : VmSupervisorChild
  processes : VmProcessTable

abbrev SupervisedM (α : Type) := Method (Fault String) Supervised α
abbrev SupervisorM (α : Type) := Method (Fault String) SupervisorCell α
abbrev ChildM (α : Type) := Method (Fault String) ChildCell α

/-! ## Records -/

namespace VmSupervisor

def pushHistory (supervisor : VmSupervisor) (entries : List VmSupervisorRestartHistoryEntry) :
    VmSupervisor :=
  { supervisor with restartHistory := supervisor.restartHistory ++ entries }

def eventEntry (reason : VmExitReason) (event : VmSupervisionRestartEvent) :
    VmSupervisorRestartHistoryEntry :=
  { childId := event.childId
    oldPid := event.oldPid
    newPid := some event.newPid
    restartCount := event.restartCount
    reason
    outcome := .restarted
    restartDelayMs := event.restartDelayMs
    shutdownTimeoutMs := event.shutdownTimeoutMs }

/-- The entries that `record_supervision_restart` pushes. -/
def restartEntries (supervisor : VmSupervisor) (childId : String) (reason : VmExitReason) :
    VmSupervisionRestart → List VmSupervisorRestartHistoryEntry
  | .restarted oldPid newPid restartCount restartDelayMs shutdownTimeoutMs =>
    [{ childId, oldPid, newPid := some newPid, restartCount, reason, outcome := .restarted
       restartDelayMs, shutdownTimeoutMs }]
  | .restartedGroup restarted => restarted.map (eventEntry reason)
  | .notRestarted pid _ _ =>
    [{ childId
       oldPid := pid
       newPid := none
       restartCount := (supervisor.children[childId]?.map (·.restartCount)).getD 0
       reason
       outcome := .notRestarted
       restartDelayMs := 0
       shutdownTimeoutMs := supervisor.children[childId]?.bind (·.lastShutdownTimeoutMs) }]
  | .limitReached pid restartCount =>
    [{ childId
       oldPid := pid
       newPid := none
       restartCount
       reason
       outcome := .limitReached
       restartDelayMs := 0
       shutdownTimeoutMs := supervisor.children[childId]?.bind (·.lastShutdownTimeoutMs) }]

def recordSupervisionRestart (supervisor : VmSupervisor) (childId : String)
    (reason : VmExitReason) (restart : VmSupervisionRestart) : VmSupervisor :=
  supervisor.pushHistory (supervisor.restartEntries childId reason restart)

end VmSupervisor

/-! ## One child -/

namespace ChildCell

def onProcesses {α : Type} (m : Method (Fault String) VmProcessTable α) : ChildM α :=
  m.within (·.processes) fun processes cell => { cell with processes }

/-- Exits the process of a child unless it has exited. -/
def exitUnlessExited (pid : VmProcessId) (reason : VmExitReason) :
    Method (Fault String) VmProcessTable Unit := do
  let table ← get
  if (table.get pid).any (·.state.isExited) then return ()
  else do
    let _ ← (VmProcessTable.exitProcess pid reason).orReturn

def modifyChild (f : VmSupervisorChild → VmSupervisorChild) : ChildM Unit :=
  modify fun cell => { cell with child := f cell.child }

/-- A new process for the child. -/
def respawn : ChildM VmProcessId := do
  let cell ← get
  let newPid ← onProcesses (VmProcessTable.spawnRoot cell.child.spec.source)
  modifyChild fun child => { child with pid := newPid }
  return newPid

def countRestart (child : VmSupervisorChild) : VmSupervisorChild :=
  { child with
    restartCount := child.restartCount + 1
    lastRestartDelayMs := child.spec.restartDelayMs (child.restartCount + 1) }

def restartOneForOneChild (reason : VmExitReason) : ChildM VmSupervisionRestart := do
  let cell ← get
  let oldPid := cell.child.pid
  onProcesses (exitUnlessExited oldPid reason)
  modifyChild fun child => { child with lastShutdownTimeoutMs := child.spec.shutdownTimeout }
  if ¬ cell.child.spec.restartClass.shouldRestart reason then
    return .notRestarted oldPid cell.child.spec.restartClass reason
  else if cell.child.restartCount ≥ cell.child.spec.restartLimit then
    return .limitReached oldPid cell.child.restartCount
  else do
    modifyChild countRestart
    let newPid ← respawn
    let cell ← get
    return .restarted oldPid newPid cell.child.restartCount cell.child.lastRestartDelayMs
      cell.child.lastShutdownTimeoutMs

/-- One turn of the second loop of `restart_child_group`. -/
def restartMember (reason : VmExitReason) (childId : String) :
    ChildM (Option VmSupervisionRestartEvent) := do
  let cell ← get
  let oldPid := cell.child.pid
  onProcesses (exitUnlessExited oldPid reason)
  modifyChild fun child => { child with lastShutdownTimeoutMs := child.spec.shutdownTimeout }
  if ¬ cell.child.spec.restartClass.shouldRestart reason then return none
  else do
    modifyChild countRestart
    let newPid ← respawn
    let cell ← get
    return some
      { childId, oldPid, newPid
        restartCount := cell.child.restartCount
        restartDelayMs := cell.child.lastRestartDelayMs
        shutdownTimeoutMs := cell.child.lastShutdownTimeoutMs }

/-- One turn of the loop of `restart_supervisor_subtree`. -/
def rebuildMember (reason : VmExitReason) (childId : String) :
    ChildM (Option VmSupervisionRestartEvent) := do
  let cell ← get
  let oldPid := cell.child.pid
  onProcesses (exitUnlessExited oldPid reason)
  let newPid ← respawn
  modifyChild fun child =>
    { child with restartCount := 0, lastRestartDelayMs := 0, lastShutdownTimeoutMs := none }
  return some
    { childId, oldPid, newPid, restartCount := 0, restartDelayMs := 0, shutdownTimeoutMs := none }

end ChildCell

/-! ## One supervisor -/

namespace SupervisorCell

/-- A method of one child; `missing` is how a child that is not there ends it. -/
def atChild {α : Type} (missing : Fault String) (childId : String) (m : ChildM α) :
    SupervisorM α := do
  let cell ← get
  match cell.supervisor.children[childId]? with
  | none => throw missing
  | some child =>
    m.within (fun cell => ⟨child, cell.processes⟩) fun inner cell =>
      ⟨{ cell.supervisor with children := cell.supervisor.children.insert childId inner.child },
        inner.processes⟩

/-- A loop over children that collects the events of those with a new process. -/
def eachChild (m : String → ChildM (Option VmSupervisionRestartEvent)) :
    List String → SupervisorM (List VmSupervisionRestartEvent)
  | [] => return []
  | childId :: rest => do
    let event ← atChild (.panicked "child id came from supervisor children") childId (m childId)
    let events ← eachChild m rest
    return event.toList ++ events

/-- The first loop of `restart_child_group`: the first child that has used up its restarts. -/
def limitedChild (supervisor : VmSupervisor) (reason : VmExitReason) :
    List String → Except (Fault String) (Option VmSupervisorChild)
  | [] => .ok none
  | childId :: rest =>
    match supervisor.children[childId]? with
    | none => .error (.panicked "group restart child id came from supervisor child order")
    | some child =>
      if child.spec.restartClass.shouldRestart reason ∧
          child.restartCount ≥ child.spec.restartLimit then .ok (some child)
      else limitedChild supervisor reason rest

def restartChildGroup (childIds : List String) (reason : VmExitReason) :
    SupervisorM VmSupervisionRestart := do
  let cell ← get
  let limited ← liftM (limitedChild cell.supervisor reason childIds)
  match limited with
  | some child => return .limitReached child.pid child.restartCount
  | none => do
    let restarted ← eachChild (ChildCell.restartMember reason) childIds
    return .restartedGroup restarted

/-- The children from the given one on, in starting order. -/
def laterChildren (childOrder : List String) (childId : String) :
    Except (Fault String) (List String) :=
  if childId ∈ childOrder then .ok (childOrder.drop (childOrder.idxOf childId))
  else .error (.panicked "child was checked before rest-for-one restart")

/-- The policy of the supervisor on one child. -/
def applyPolicy (childId : String) (reason : VmExitReason) : SupervisorM VmSupervisionRestart := do
  let cell ← get
  let missing := Fault.returned s!"missing child `{childId}`"
  match cell.supervisor.policy with
  | .oneForOne => atChild missing childId (ChildCell.restartOneForOneChild reason)
  | .oneForAll => do
    liftM (failIf (cell.supervisor.children[childId]? |>.isNone) missing)
    restartChildGroup cell.supervisor.childOrder reason
  | .restForOne => do
    liftM (failIf (cell.supervisor.children[childId]? |>.isNone) missing)
    let childIds ← liftM (laterChildren cell.supervisor.childOrder childId)
    restartChildGroup childIds reason

def modifySupervisor (f : VmSupervisor → VmSupervisor) : SupervisorM Unit :=
  modify fun cell => { cell with supervisor := f cell.supervisor }

/-- `restart_child` on its supervisor. The second result is the parent to be told of a
failure. -/
def restartChild (childId : String) (reason : VmExitReason) :
    SupervisorM (VmSupervisionRestart × Option VmSupervisorId) := do
  let restart ← applyPolicy childId reason
  modifySupervisor fun supervisor => supervisor.recordSupervisionRestart childId reason restart
  match restart with
  | .limitReached pid _ => do
    modifySupervisor fun supervisor => { supervisor with state := .failed childId pid reason }
    let cell ← get
    return (restart, cell.supervisor.parentId)
  | _ => return (restart, none)

/-- `restart_supervisor_subtree` on its supervisor. -/
def rebuild (reason : VmExitReason) : SupervisorM Unit := do
  let cell ← get
  if cell.supervisor.childOrder = [] then modifySupervisor fun s => { s with state := .running }
  else do
    let restarted ← eachChild (ChildCell.rebuildMember reason) cell.supervisor.childOrder
    modifySupervisor fun supervisor =>
      { supervisor.recordSupervisionRestart "<supervisor>" reason (.restartedGroup restarted) with
        state := .running }

end SupervisorCell

/-! ## The system -/

namespace VmSupervisionSystem

def new : VmSupervisionSystem := ⟨0, ∅⟩

def missingSupervisor (id : VmSupervisorId) : String := s!"missing supervisor {id.value}"

def insertSupervisor (system : VmSupervisionSystem) (parentId : Option VmSupervisorId)
    (name : String) (policy : VmRestartPolicy) : VmSupervisionSystem × VmSupervisorId :=
  let id : VmSupervisorId := ⟨saturatingAdd system.nextSupervisorId 1⟩
  (⟨id.value, system.supervisors.insert id ⟨id, parentId, name, policy, .running, [], ∅, []⟩⟩, id)

def createSupervisorWithPolicy (system : VmSupervisionSystem) (name : String)
    (policy : VmRestartPolicy) : VmSupervisionSystem × VmSupervisorId :=
  system.insertSupervisor none name policy

def createSupervisor (system : VmSupervisionSystem) (name : String) :
    VmSupervisionSystem × VmSupervisorId := system.createSupervisorWithPolicy name .oneForOne

def createChildSupervisorWithPolicy (system : VmSupervisionSystem) (parentId : VmSupervisorId)
    (name : String) (policy : VmRestartPolicy) :
    VmSupervisionSystem × Except String VmSupervisorId :=
  if parentId ∈ system.supervisors then
    let (system, id) := system.insertSupervisor (some parentId) name policy
    (system, .ok id)
  else (system, .error (missingSupervisor parentId))

/-- The supervisors directly below one, in the order of their ids. -/
def childSupervisors (system : VmSupervisionSystem) (parentId : VmSupervisorId) :
    List VmSupervisorId :=
  (valuesOf system.supervisors).filterMap fun supervisor =>
    if supervisor.parentId = some parentId then some supervisor.id else none

end VmSupervisionSystem

namespace Supervised

open VmSupervisionSystem (missingSupervisor)

/-- A method of one supervisor. -/
def atSupervisor {α : Type} (id : VmSupervisorId) (m : SupervisorM α) : SupervisedM α := do
  let s ← get
  match s.system.supervisors[id]? with
  | none => throw (.returned (missingSupervisor id))
  | some supervisor =>
    m.within (fun s => ⟨supervisor, s.processes⟩) fun cell s =>
      ⟨{ s.system with supervisors := s.system.supervisors.insert id cell.supervisor },
        cell.processes⟩

def startChildUnder (spec : VmChildSpec) : SupervisorM VmProcessId := do
  let cell ← get
  liftM (failIf (spec.id ∈ cell.supervisor.children)
    (Fault.returned s!"child `{spec.id}` already exists"))
  let pid ← (VmProcessTable.spawnRoot spec.source).within (·.processes) fun processes cell =>
    { cell with processes }
  SupervisorCell.modifySupervisor fun supervisor =>
    { supervisor with
      children := supervisor.children.insert spec.id ⟨spec, pid, 0, 0, none⟩
      childOrder := supervisor.childOrder ++ [spec.id] }
  return pid

def startChild (supervisorId : VmSupervisorId) (spec : VmChildSpec) : SupervisedM VmProcessId :=
  atSupervisor supervisorId (startChildUnder spec)

/-- Sets the state of a supervisor that may be gone. -/
def setState (id : VmSupervisorId) (state : VmSupervisorState) (s : Supervised) : Supervised :=
  match s.system.supervisors[id]? with
  | none => s
  | some supervisor =>
    { s with system.supervisors := s.system.supervisors.insert id { supervisor with state } }

def restartChild (supervisorId : VmSupervisorId) (childId : String) (reason : VmExitReason) :
    SupervisedM VmSupervisionRestart := do
  let (restart, parentFailure) ←
    atSupervisor supervisorId (SupervisorCell.restartChild childId reason)
  match parentFailure with
  | some parentId => do
    modify (setState parentId (.childSupervisorFailed supervisorId reason))
    return restart
  | none => return restart

def restartAfterBackoff (childId : String) (reason : VmExitReason) :
    SupervisorM VmSupervisionRestart := do
  let restart ← SupervisorCell.atChild (.returned s!"missing child `{childId}`") childId
    (ChildCell.restartOneForOneChild reason)
  SupervisorCell.modifySupervisor fun supervisor =>
    supervisor.recordSupervisionRestart childId reason restart
  return restart

def restartChildAfterBackoff (supervisorId : VmSupervisorId) (childId : String)
    (reason : VmExitReason) : SupervisedM VmSupervisionRestart :=
  atSupervisor supervisorId (restartAfterBackoff childId reason)

def restartEach (restart : VmSupervisorId → SupervisedM Unit) :
    List VmSupervisorId → SupervisedM Unit
  | [] => return ()
  | id :: rest => do
    restart id
    restartEach restart rest

def stackOverflow : Fault String := .panicked "stack overflow"

/-- `restart_supervisor_subtree` on a stack of the given depth. -/
def restartSupervisorSubtree (reason : VmExitReason) : Nat → VmSupervisorId → SupervisedM Unit
  | 0, _ => throw stackOverflow
  | depth + 1, id => do
    let s ← get
    let descendants := s.system.childSupervisors id
    atSupervisor id (SupervisorCell.rebuild reason)
    restartEach (restartSupervisorSubtree reason depth) descendants

/-- The supervisors that the parent's policy selects. -/
def selectSupervisors (policy : VmRestartPolicy) (siblings : List VmSupervisorId)
    (failed : VmSupervisorId) : List VmSupervisorId :=
  match policy with
  | .oneForOne => [failed]
  | .oneForAll => siblings
  | .restForOne => siblings.drop (siblings.idxOf failed)

/-- The parent of a failed supervisor, and what its policy selects. -/
def restartScope (system : VmSupervisionSystem) (failedId : VmSupervisorId) :
    Except (Fault String) (VmSupervisorId × List VmSupervisorId) := do
  let failed ← (system.supervisors[failedId]?).elim (.error (.returned (missingSupervisor failedId)))
    .ok
  let parentId ← failed.parentId.elim (.error (.returned
    s!"root supervisor {failedId.value} has no parent restart strategy")) .ok
  let parent ← (system.supervisors[parentId]?).elim (.error (.returned (missingSupervisor parentId)))
    .ok
  let siblings := system.childSupervisors parentId
  failIf (failedId ∉ siblings) (Fault.returned
    s!"supervisor {failedId.value} is not attached to parent {parentId.value}")
  return (parentId, selectSupervisors parent.policy siblings failedId)

def restartFailedSupervisor (depth : Nat) (failedId : VmSupervisorId) (reason : VmExitReason) :
    SupervisedM (List VmSupervisorId) := do
  let s ← get
  let (parentId, selected) ← liftM (restartScope s.system failedId)
  restartEach (restartSupervisorSubtree reason depth) selected
  modify (setState parentId .running)
  return selected

end Supervised

end Terlan.Supervision
