/-
  The supervisor of one execution shard: negotiation, admission and replacement of images, epochs
  and their operations, signals, drain and stop, crashes, restarts and quarantine.

  Every method makes its checks in the order of the source, on an object that outlives a failure,
  so a refused call that left a trace would show; an `expect` is a panic. `Changes` lists what a
  call can do, `call_settles` finds it for each call, and the guarantees of a run are read off it.
-/
import Mathlib.Data.Vector.Defs
import Terlan.ExecutionShard.EpochFence
import Terlan.Lib.Machine
import Terlan.Lib.Method
import Terlan.Lib.Sorted
import Terlan.Lib.Text

namespace Terlan.ExecutionShard

open Terlan.Lib
open List hiding Vector

/-! ## Images and their diagnostics -/

/-- A sealed image; `new` refuses a blank identity and a digest of zeros. -/
structure VmSealedShardImage where
  identity : String
  descriptorDigest : Vector UInt8 32
  continuationIds : List UInt64
  identified : isBlank identity = false
  digested : descriptorDigest ≠ Vector.replicate 32 0

/-- The counts of the classes that have one, each under its name. -/
structure VmNativeGenerationReferenceSnapshot where
  records : List (String × UInt64)

namespace VmNativeGenerationReferenceSnapshot

def total (self : VmNativeGenerationReferenceSnapshot) : UInt64 :=
  self.records.foldl (fun sum row => sum + row.2) 0

def isQuiescent (self : VmNativeGenerationReferenceSnapshot) : Bool := self.records.isEmpty

end VmNativeGenerationReferenceSnapshot

structure VmNativeImageDiagnosticMetadata where
  schema : String
  imageIdentity : String
  descriptorDigest : String
  continuationIds : List UInt64
  generationEpoch : Nat
  generationReferenceTotal : UInt64
  generationQuiescent : Bool
  generationReferences : List (String × UInt64)

def hexBytes (bytes : List UInt8) : String :=
  .ofList (bytes.flatMap fun byte : UInt8 =>
    [Nat.digitChar (byte >>> 4).toNat, Nat.digitChar (byte &&& 0x0f).toNat])

def VmNativeImageDiagnosticMetadata.new (imageIdentity : String)
    (descriptorDigest : Vector UInt8 32) (continuationIds : List UInt64) (generationEpoch : Nat)
    (references : VmNativeGenerationReferenceSnapshot) :
    Except String VmNativeImageDiagnosticMetadata := do
  failIf (isBlank imageIdentity) "native image diagnostic identity cannot be empty"
  failIf (descriptorDigest = Vector.replicate 32 0)
    "native image diagnostic descriptor digest cannot be empty"
  failIf (generationEpoch = 0) "native image diagnostic generation must be nonzero"
  return {
    schema := "terlan.vm.native-image-diagnostic.v1"
    imageIdentity
    descriptorDigest := hexBytes descriptorDigest.toList
    continuationIds := sortUnique id continuationIds
    generationEpoch
    generationReferenceTotal := references.total
    generationQuiescent := references.isQuiescent
    generationReferences := references.records }

/-! ## The supervisor -/

/-- `new` refuses zero. -/
structure VmShardProtocolVersion where
  value : UInt16
  nonzero : value ≠ 0
deriving DecidableEq

structure VmRestartBackoffSchedule where
  initialDelayMs : UInt64
  maxDelayMs : UInt64

def VmRestartBackoffSchedule.delayForRestartCount (self : VmRestartBackoffSchedule)
    (restartCount : UInt32) : UInt64 :=
  if restartCount = 0 ∨ self.initialDelayMs = 0 ∨ self.maxDelayMs = 0 then 0
  else
    min (Nat.iterate (fun delay => min (saturatingMul delay 2) self.maxDelayMs)
      (restartCount.toNat - 1) self.initialDelayMs) self.maxDelayMs

structure VmShardSupervisorPolicy where
  protocol : VmShardProtocolVersion
  restartBudget : UInt32
  restartBackoff : VmRestartBackoffSchedule

inductive VmShardPhase where
  | created
  | negotiating
  | admitting
  | awaitingReady
  | ready
  | draining
  | stopping
  | stopped
  | restartBackoff
  | quarantined
deriving DecidableEq

inductive VmShardTermination where
  | graceful
  | forced

structure VmShardSignalProgress where
  health : UInt64
  work : UInt64

/-- `new` refuses a blank text. -/
structure VmExecutionShardId where
  text : String
  named : isBlank text = false

structure VmShardCrashReport where
  shardId : VmExecutionShardId
  epoch : Option VmShardEpoch
  reason : String
  observedTick : UInt64
  nativeImage : Option VmNativeImageDiagnosticMetadata

inductive VmShardSupervisorError where
  | protocolMismatch (expected actual : UInt16)
  | invalidTransition (phase : VmShardPhase) (operation : String)
  | epochMismatch (expected actual : VmShardEpoch)
  | nonMonotonicSignal (signal : String) (previous actual : UInt64)
  | emptyCrashReason
  | restartDeadlineOverflow
  | restartBackoffActive (deadlineTick nowTick : UInt64)
  | epochExhausted
  | epochOperation (error : VmShardEpochError)

structure VmExecutionShardSupervisor where
  shardId : VmExecutionShardId
  policy : VmShardSupervisorPolicy
  phase : VmShardPhase
  image : Option VmSealedShardImage
  epoch : Option VmShardEpoch
  epochFence : Option VmShardEpochFence
  internalOperation : Option VmShardEpochOperation
  nextEpoch : UInt64
  signals : VmShardSignalProgress
  restartCount : UInt32
  restartDeadlineTick : Option UInt64
  lastCrash : Option VmShardCrashReport
  crashHistory : List VmShardCrashReport
  termination : Option VmShardTermination

def maxCrashHistory : Nat := 64

/-- `VmShardEpoch::new`, whose one error nobody reads. -/
def VmShardEpoch.new (value : UInt64) : Option VmShardEpoch :=
  if nonzero : value.toNat ≠ 0 then some ⟨value.toNat, nonzero⟩ else none

/-- Forgets a committed operation. -/
def VmShardEpochFence.retireCommitted (fence : VmShardEpochFence)
    (operation : VmShardEpochOperation) : VmShardEpochFence × Bool :=
  if fence.operations[operation.id]? =
      some ⟨operation.kind, operation.replayPolicy, .committed⟩ then
    ({ fence with operations := fence.operations.erase operation.id }, true)
  else (fence, false)

/-- The two kinds of signals. -/
inductive Signal where
  | health
  | progress
deriving DecidableEq

namespace VmShardSignalProgress

def last (self : VmShardSignalProgress) : Signal → UInt64
  | .health => self.health
  | .progress => self.work

def record (self : VmShardSignalProgress) (sequence : UInt64) : Signal → VmShardSignalProgress
  | .health => { self with health := sequence }
  | .progress => { self with work := sequence }

end VmShardSignalProgress

namespace VmExecutionShardSupervisor

def new (shardId : VmExecutionShardId) (policy : VmShardSupervisorPolicy) :
    VmExecutionShardSupervisor where
  shardId
  policy
  phase := .created
  image := none
  epoch := none
  epochFence := none
  internalOperation := none
  nextEpoch := 1
  signals := ⟨0, 0⟩
  restartCount := 0
  restartDeadlineTick := none
  lastCrash := none
  crashHistory := []
  termination := none

def recordCrash (self : VmExecutionShardSupervisor) (report : VmShardCrashReport) :
    VmExecutionShardSupervisor :=
  { self with
    crashHistory :=
      (if self.crashHistory.length = maxCrashHistory then self.crashHistory.tail
        else self.crashHistory) ++ [report]
    lastCrash := some report }

/-- It panics where the metadata are refused. -/
def crashImageMetadata (self : VmExecutionShardSupervisor)
    (references : VmNativeGenerationReferenceSnapshot) :
    Except (Fault VmShardSupervisorError) (Option VmNativeImageDiagnosticMetadata) :=
  match self.image, self.epoch with
  | some image, some epoch =>
    ((VmNativeImageDiagnosticMetadata.new image.identity image.descriptorDigest
      image.continuationIds epoch.value references).map some).mapError fun _ =>
        .panicked "admitted sealed image always has valid diagnostic identity"
  | _, _ => .ok none

end VmExecutionShardSupervisor

open VmExecutionShardSupervisor

/-- Methods of the supervisor, which may panic. -/
abbrev Shard := Method (Fault VmShardSupervisorError) VmExecutionShardSupervisor

/-! ## Checks -/

def refuseIf (condition : Prop) [Decidable condition] (error : VmShardSupervisorError) :
    Shard Unit :=
  liftM (failIf condition (Fault.returned error))

def requirePhase (expected : VmShardPhase) (operation : String) : Shard Unit := do
  let self ← get
  refuseIf (self.phase ≠ expected) (.invalidTransition self.phase operation)

def requireOperationPhase (operation : String) : Shard Unit := do
  let self ← get
  refuseIf (self.phase ≠ .ready ∧ self.phase ≠ .draining)
    (.invalidTransition self.phase operation)

/-- The same check under a second name. -/
def requireActiveSignalPhase : String → Shard Unit := requireOperationPhase

def requireEpoch (actual : VmShardEpoch) : Shard Unit := do
  let self ← get
  match self.epoch with
  | none => throw (.panicked "epoch-bearing phase requires admission")
  | some expected => refuseIf (actual ≠ expected) (.epochMismatch expected actual)

def requireAdvancing (signal : String) (previous actual : UInt64) : Shard Unit :=
  refuseIf (actual ≤ previous) (.nonMonotonicSignal signal previous actual)

/-! ## Admission -/

def beginNegotiation : Shard Unit := do
  requirePhase .created "begin_negotiation"
  modify fun self => { self with phase := .negotiating }

def negotiate (proposed : VmShardProtocolVersion) : Shard Unit := do
  requirePhase .negotiating "negotiate"
  let self ← get
  refuseIf (proposed ≠ self.policy.protocol)
    (.protocolMismatch self.policy.protocol.value proposed.value)
  modify fun self => { self with phase := .admitting }

/-- The fence of the next epoch: the advanced one, or a first one. -/
def advancedFence (epoch : VmShardEpoch) :
    Option VmShardEpochFence → Except VmShardSupervisorError VmShardEpochFence
  | none => .ok (.new epoch)
  | some current =>
    match current.advance epoch with
    | (_, .error error) => .error (.epochOperation error)
    | (advanced, .ok ()) => .ok advanced

def installNextImage (image : VmSealedShardImage) : Shard VmShardEpoch := do
  let self ← get
  match VmShardEpoch.new self.nextEpoch, checkedAdd self.nextEpoch 1 with
  | some epoch, some nextEpoch =>
    let fence ← liftM ((advancedFence epoch self.epochFence).mapError Fault.returned)
    modify fun self => { self with
      image := some image
      epoch := some epoch
      epochFence := some fence
      internalOperation := none
      nextEpoch
      signals := ⟨0, 0⟩
      phase := .awaitingReady }
    return epoch
  | _, _ => throw (.returned .epochExhausted)

def admitImage (image : VmSealedShardImage) : Shard VmShardEpoch := do
  requirePhase .admitting "admit_image"
  installNextImage image

def replaceDrainedImage (drainedEpoch : VmShardEpoch) (image : VmSealedShardImage) :
    Shard VmShardEpoch := do
  requirePhase .draining "replace_drained_image"
  requireEpoch drainedEpoch
  installNextImage image

/-- From one phase to another, for the current epoch. -/
def enterPhase (operation : String) (source target : VmShardPhase) (epoch : VmShardEpoch) :
    Shard Unit := do
  requirePhase source operation
  requireEpoch epoch
  modify fun self => { self with phase := target }

def acknowledgeReady : VmShardEpoch → Shard Unit :=
  enterPhase "acknowledge_ready" .awaitingReady .ready

/-! ## Signals and operations -/

def signal (kind : Signal) (operation name : String) (epoch : VmShardEpoch) (sequence : UInt64) :
    Shard Unit := do
  requireActiveSignalPhase operation
  requireEpoch epoch
  let self ← get
  requireAdvancing name (self.signals.last kind) sequence
  modify fun self => { self with signals := self.signals.record sequence kind }

def signalHealth : VmShardEpoch → UInt64 → Shard Unit := signal .health "signal_health" "health"

def signalProgress : VmShardEpoch → UInt64 → Shard Unit :=
  signal .progress "signal_progress" "progress"

/-- A call of the fence, which keeps what the call leaves. -/
def fenceOperation {α : Type} (operation : String)
    (call : VmShardEpochFence → VmShardEpochFence × Except VmShardEpochError α) : Shard α := do
  requireOperationPhase operation
  let self ← get
  match self.epochFence with
  | none => throw (.panicked "operation phase requires an admitted epoch fence")
  | some fence =>
    modify fun self => { self with epochFence := some (call fence).1 }
    liftM ((call fence).2.mapError fun error =>
      Fault.returned (VmShardSupervisorError.epochOperation error))

def beginEpochOperation (operation : VmShardEpochOperation) : Shard VmShardOperationAdmission :=
  fenceOperation "begin_epoch_operation" (·.begin operation)

def commitEpochOperation (operation : VmShardEpochOperation) : Shard VmShardOperationCommit :=
  fenceOperation "commit_epoch_operation" (·.commit operation)

def beginInternalOperation (operation : VmShardEpochOperation) :
    Shard VmShardOperationAdmission := do
  requireOperationPhase "begin_internal_operation"
  requireEpoch operation.epoch
  let self ← get
  match self.internalOperation with
  | none =>
    modify fun self => { self with internalOperation := some operation }
    return .executeFirst
  | some current =>
    refuseIf (current ≠ operation) (.epochOperation (.operationIdentityConflict operation.id))
    return .duplicateSuppressed

def commitInternalOperation (operation : VmShardEpochOperation) :
    Shard VmShardOperationCommit := do
  requireOperationPhase "commit_internal_operation"
  requireEpoch operation.epoch
  let self ← get
  match self.internalOperation with
  | some current =>
    refuseIf (current ≠ operation) (.epochOperation (.operationIdentityConflict operation.id))
    modify fun self => { self with internalOperation := none }
    return .committed
  | none => throw (.returned (.epochOperation (.unknownOperation operation.id)))

def abortInternalOperation (operation : VmShardEpochOperation) : Shard Bool := do
  let self ← get
  if self.internalOperation = some operation then
    modify fun self => { self with internalOperation := none }
    return true
  else
    return false

def retireInternalOperation (operation : VmShardEpochOperation) : Shard Bool := do
  let self ← get
  match self.epochFence with
  | none => return false
  | some fence =>
    modify fun self => { self with epochFence := some (fence.retireCommitted operation).1 }
    return (fence.retireCommitted operation).2

/-! ## Drain, stop, crash and restart -/

def beginDrain : VmShardEpoch → Shard Unit := enterPhase "begin_drain" .ready .draining

def quarantineDrainTimeoutWithLifetime (epoch : VmShardEpoch) (reason : String)
    (observedTick : UInt64) (references : VmNativeGenerationReferenceSnapshot) : Shard Unit := do
  requirePhase .draining "quarantine_drain_timeout"
  requireEpoch epoch
  refuseIf (isBlank reason) .emptyCrashReason
  let self ← get
  let nativeImage ← liftM (self.crashImageMetadata references)
  modify fun self => { self.recordCrash ⟨self.shardId, some epoch, reason, observedTick,
      nativeImage⟩ with
    restartDeadlineTick := none
    phase := .quarantined }

def requestGracefulStop : VmShardEpoch → Shard Unit :=
  enterPhase "request_graceful_stop" .draining .stopping

def acknowledgeStopped (epoch : VmShardEpoch) : Shard Unit := do
  requirePhase .stopping "acknowledge_stopped"
  requireEpoch epoch
  modify fun self => { self with phase := .stopped, termination := some .graceful }

def forceTerminate : Shard Unit := do
  let self ← get
  refuseIf (self.phase = .stopped ∨ self.phase = .quarantined)
    (.invalidTransition self.phase "force_terminate")
  modify fun self => { self with
    phase := .stopped
    termination := some .forced
    restartDeadlineTick := none }

def reportCrashWithLifetime (reason : String) (observedTick : UInt64)
    (references : VmNativeGenerationReferenceSnapshot) : Shard Unit := do
  let self ← get
  refuseIf (self.phase = .stopped ∨ self.phase = .restartBackoff ∨ self.phase = .quarantined)
    (.invalidTransition self.phase "report_crash")
  refuseIf (isBlank reason) .emptyCrashReason
  let restartCount := UInt32.ofNat (min (self.restartCount.toNat + 1) 4294967295)
  let nativeImage ← liftM (self.crashImageMetadata references)
  let report := ⟨self.shardId, self.epoch, reason, observedTick, nativeImage⟩
  if self.policy.restartBudget ≤ self.restartCount then
    modify fun self => { self.recordCrash report with
      restartCount
      restartDeadlineTick := none
      phase := .quarantined }
  else
    match checkedAdd observedTick
        (self.policy.restartBackoff.delayForRestartCount restartCount) with
    | none => throw (.returned .restartDeadlineOverflow)
    | some deadline =>
      modify fun self => { self.recordCrash report with
        restartCount
        restartDeadlineTick := some deadline
        phase := .restartBackoff }

def restartWhenDue (nowTick : UInt64) : Shard Unit := do
  requirePhase .restartBackoff "restart_when_due"
  let self ← get
  match self.restartDeadlineTick with
  | none => throw (.panicked "restart backoff phase owns a deadline")
  | some deadlineTick =>
    refuseIf (nowTick < deadlineTick) (.restartBackoffActive deadlineTick nowTick)
    modify fun self => { self with
      image := none
      epoch := none
      internalOperation := none
      signals := ⟨0, 0⟩
      restartDeadlineTick := none
      termination := none
      phase := .negotiating }

/-! ## Calls -/

inductive SupervisorCall where
  | beginNegotiation
  | negotiate (proposed : VmShardProtocolVersion)
  | admitImage (image : VmSealedShardImage)
  | replaceDrainedImage (drainedEpoch : VmShardEpoch) (image : VmSealedShardImage)
  | acknowledgeReady (epoch : VmShardEpoch)
  | signalHealth (epoch : VmShardEpoch) (sequence : UInt64)
  | signalProgress (epoch : VmShardEpoch) (sequence : UInt64)
  | beginEpochOperation (operation : VmShardEpochOperation)
  | commitEpochOperation (operation : VmShardEpochOperation)
  | beginInternalOperation (operation : VmShardEpochOperation)
  | commitInternalOperation (operation : VmShardEpochOperation)
  | abortInternalOperation (operation : VmShardEpochOperation)
  | retireInternalOperation (operation : VmShardEpochOperation)
  | beginDrain (epoch : VmShardEpoch)
  | quarantineDrainTimeout (epoch : VmShardEpoch) (reason : String) (observedTick : UInt64)
      (references : VmNativeGenerationReferenceSnapshot)
  | requestGracefulStop (epoch : VmShardEpoch)
  | acknowledgeStopped (epoch : VmShardEpoch)
  | forceTerminate
  | reportCrash (reason : String) (observedTick : UInt64)
      (references : VmNativeGenerationReferenceSnapshot)
  | restartWhenDue (nowTick : UInt64)

inductive SupervisorReply where
  | done
  | admitted (epoch : VmShardEpoch)
  | admission (admission : VmShardOperationAdmission)
  | completion (commit : VmShardOperationCommit)
  | found (answer : Bool)

def quietly (method : Shard Unit) : Shard SupervisorReply := (fun _ => .done) <$> method

def methodOf : SupervisorCall → Shard SupervisorReply
  | .beginNegotiation => quietly beginNegotiation
  | .negotiate proposed => quietly (negotiate proposed)
  | .admitImage image => .admitted <$> admitImage image
  | .replaceDrainedImage drainedEpoch image =>
    .admitted <$> replaceDrainedImage drainedEpoch image
  | .acknowledgeReady epoch => quietly (acknowledgeReady epoch)
  | .signalHealth epoch sequence => quietly (signalHealth epoch sequence)
  | .signalProgress epoch sequence => quietly (signalProgress epoch sequence)
  | .beginEpochOperation operation => .admission <$> beginEpochOperation operation
  | .commitEpochOperation operation => .completion <$> commitEpochOperation operation
  | .beginInternalOperation operation => .admission <$> beginInternalOperation operation
  | .commitInternalOperation operation => .completion <$> commitInternalOperation operation
  | .abortInternalOperation operation => .found <$> abortInternalOperation operation
  | .retireInternalOperation operation => .found <$> retireInternalOperation operation
  | .beginDrain epoch => quietly (beginDrain epoch)
  | .quarantineDrainTimeout epoch reason observedTick references =>
    quietly (quarantineDrainTimeoutWithLifetime epoch reason observedTick references)
  | .requestGracefulStop epoch => quietly (requestGracefulStop epoch)
  | .acknowledgeStopped epoch => quietly (acknowledgeStopped epoch)
  | .forceTerminate => quietly forceTerminate
  | .reportCrash reason observedTick references =>
    quietly (reportCrashWithLifetime reason observedTick references)
  | .restartWhenDue nowTick => quietly (restartWhenDue nowTick)

abbrev SupervisorResult := Except (Fault VmShardSupervisorError) SupervisorReply

def serve (self : VmExecutionShardSupervisor) (call : SupervisorCall) :
    VmExecutionShardSupervisor × SupervisorResult :=
  (methodOf call).call self

/-- The epoch that an exchange assigned to an image. -/
def issued (exchange : SupervisorCall × SupervisorResult) : Option VmShardEpoch :=
  match exchange.2 with
  | .ok (.admitted epoch) => some epoch
  | _ => none

/-- The signal that an exchange accepted. -/
def accepted : SupervisorCall × SupervisorResult → Option (Signal × VmShardEpoch × UInt64)
  | (.signalHealth epoch sequence, .ok _) => some (.health, epoch, sequence)
  | (.signalProgress epoch sequence, .ok _) => some (.progress, epoch, sequence)
  | _ => none

/-! ## The invariant -/

/-- The phases with an admitted image. -/
def VmShardPhase.Bears (phase : VmShardPhase) : Prop :=
  phase = .awaitingReady ∨ phase = .ready ∨ phase = .draining ∨ phase = .stopping

structure Supervised (s : VmExecutionShardSupervisor) : Prop where
  bears : s.phase.Bears → ∃ image epoch fence, s.image = some image ∧ s.epoch = some epoch ∧
    s.epochFence = some fence ∧ fence.epoch = epoch
  epoch : ∀ epoch, s.epoch = some epoch → epoch.value < s.nextEpoch.toNat
  fence : ∀ fence, s.epochFence = some fence → fence.epoch.value < s.nextEpoch.toNat
  internal : ∀ operation, s.internalOperation = some operation → s.epoch = some operation.epoch
  deadline : s.phase = .restartBackoff → s.restartDeadlineTick ≠ none
  budget : s.phase ≠ .quarantined → s.restartCount ≤ s.policy.restartBudget
  spent : s.restartCount.toNat ≤ s.policy.restartBudget.toNat + 1

/-- What a call can do, with the epoch that it issues and the signal that it accepts. -/
inductive Changes (s : VmExecutionShardSupervisor) : Option VmShardEpoch →
    Option (Signal × VmShardEpoch × UInt64) → VmExecutionShardSupervisor → Prop where
  | same : Changes s none none s
  | entered (phase : VmShardPhase) (termination : Option VmShardTermination)
      (restartDeadlineTick : Option UInt64) :
      (phase.Bears → s.phase.Bears) → phase ≠ .restartBackoff → s.phase ≠ .quarantined →
      Changes s none none { s with phase, termination, restartDeadlineTick }
  | installed (image : VmSealedShardImage) (epoch : VmShardEpoch) (fence : VmShardEpochFence)
      (nextEpoch : UInt64) :
      epoch.value = s.nextEpoch.toNat → nextEpoch.toNat = s.nextEpoch.toNat + 1 →
      fence.epoch = epoch → s.phase ≠ .quarantined →
      Changes s (some epoch) none { s with
        image := some image
        epoch := some epoch
        epochFence := some fence
        internalOperation := none
        nextEpoch
        signals := ⟨0, 0⟩
        phase := .awaitingReady }
  | signalled (kind : Signal) (epoch : VmShardEpoch) (sequence : UInt64) :
      s.epoch = some epoch → s.signals.last kind < sequence →
      Changes s none (some (kind, epoch, sequence))
        { s with signals := s.signals.record sequence kind }
  | fenced (fence fence' : VmShardEpochFence) :
      s.epochFence = some fence → fence'.epoch = fence.epoch →
      Changes s none none { s with epochFence := some fence' }
  | internal (operation : Option VmShardEpochOperation) :
      (∀ op, operation = some op → s.epoch = some op.epoch) →
      Changes s none none { s with internalOperation := operation }
  | crashed (report : VmShardCrashReport) (restartCount : UInt32)
      (restartDeadlineTick : Option UInt64) (phase : VmShardPhase) :
      ¬ phase.Bears → restartCount.toNat ≤ s.policy.restartBudget.toNat + 1 →
      (phase ≠ .quarantined → restartCount ≤ s.policy.restartBudget) →
      (phase = .restartBackoff → restartDeadlineTick ≠ none) →
      Changes s none none { s.recordCrash report with restartCount, restartDeadlineTick, phase }
  | restarted : s.phase = .restartBackoff →
      Changes s none none { s with
        image := none
        epoch := none
        internalOperation := none
        signals := ⟨0, 0⟩
        restartDeadlineTick := none
        termination := none
        phase := .negotiating }

/-! ## What a call can do -/

/-- A call is refused and changes nothing, or it returns what `P` says. It does not panic. -/
def Settles {α : Type} (s : VmExecutionShardSupervisor)
    (P : VmExecutionShardSupervisor → α → Prop)
    (answer : VmExecutionShardSupervisor × Except (Fault VmShardSupervisorError) α) : Prop :=
  (∃ error, answer = (s, .error (.returned error))) ∨ ∃ s' a, answer = (s', .ok a) ∧ P s' a

/-- A change that issues nothing and accepts nothing. -/
def Quiet {α : Type} (s s' : VmExecutionShardSupervisor) (_ : α) : Prop := Changes s none none s'

section Rules

variable {α β : Type} {s : VmExecutionShardSupervisor} {P : VmExecutionShardSupervisor → α → Prop}

theorem settles_throw (error : VmShardSupervisorError) :
    Settles s P (Method.call (throw (.returned error)) s) := .inl ⟨error, rfl⟩

theorem settles_pure {a : α} (h : P s a) : Settles s P (Method.call (pure a) s) :=
  .inr ⟨s, a, rfl, h⟩

theorem settles_modify {f : VmExecutionShardSupervisor → VmExecutionShardSupervisor}
    {P : VmExecutionShardSupervisor → Unit → Prop} (h : P (f s) ()) :
    Settles s P (Method.call (modify f) s) :=
  .inr ⟨f s, (), rfl, h⟩

theorem settles_modify_pure {f : VmExecutionShardSupervisor → VmExecutionShardSupervisor} {a : α}
    (h : P (f s) a) : Settles s P (Method.call (modify f >>= fun _ => pure a) s) :=
  .inr ⟨f s, a, rfl, h⟩

theorem settles_map {f : β → α} {m : Shard β}
    (h : Settles s (fun s' b => P s' (f b)) (Method.call m s)) :
    Settles s P (Method.call (f <$> m) s) := by
  rw [call_map]
  rcases h with ⟨error, run⟩ | ⟨s', b, run, h⟩
  · rw [run]
    exact .inl ⟨error, rfl⟩
  · rw [run]
    exact .inr ⟨s', f b, rfl, h⟩

variable {m : Unit → Shard α}

theorem settles_refuseIf {condition : Prop} [Decidable condition]
    {error : VmShardSupervisorError}
    (rest : ¬ condition → Settles s P (Method.call (m ()) s)) :
    Settles s P (Method.call (refuseIf condition error >>= m) s) := by
  unfold refuseIf failIf
  rw [call_check_bind]
  split_ifs with refused
  · exact .inl ⟨error, rfl⟩
  · exact rest refused

theorem settles_requirePhase {expected : VmShardPhase} {operation : String}
    (rest : s.phase = expected → Settles s P (Method.call (m ()) s)) :
    Settles s P (Method.call (requirePhase expected operation >>= m) s) := by
  unfold requirePhase
  rw [bind_assoc, call_get_bind]
  exact settles_refuseIf fun same => rest (not_not.mp same)

theorem settles_requireOperationPhase {operation : String}
    (rest : s.phase.Bears → s.phase ≠ .quarantined → Settles s P (Method.call (m ()) s)) :
    Settles s P (Method.call (requireOperationPhase operation >>= m) s) := by
  unfold requireOperationPhase
  rw [bind_assoc, call_get_bind]
  refine settles_refuseIf fun other => ?_
  rcases not_and_or.mp other with ready | draining
  · have phase := not_not.mp ready
    exact rest (.inr (.inl phase)) (by rw [phase]; decide)
  · have phase := not_not.mp draining
    exact rest (.inr (.inr (.inl phase))) (by rw [phase]; decide)

theorem settles_requireEpoch (supervised : Supervised s) (bears : s.phase.Bears)
    {actual : VmShardEpoch} (rest : s.epoch = some actual → Settles s P (Method.call (m ()) s)) :
    Settles s P (Method.call (requireEpoch actual >>= m) s) := by
  obtain ⟨_, current, _, -, there, -⟩ := supervised.bears bears
  unfold requireEpoch
  rw [bind_assoc, call_get_bind, there]
  exact settles_refuseIf fun same => rest (not_not.mp same ▸ there)

end Rules

section Methods

variable {s : VmExecutionShardSupervisor}

theorem enterPhase_settles (supervised : Supervised s) (operation : String)
    {source target : VmShardPhase} (bears : source.Bears) (held : target.Bears)
    (epoch : VmShardEpoch) :
    Settles s (Quiet s) (Method.call (enterPhase operation source target epoch) s) := by
  unfold enterPhase
  refine settles_requirePhase fun phase => ?_
  subst phase
  refine settles_requireEpoch supervised bears fun _ => settles_modify ?_
  refine .entered target s.termination s.restartDeadlineTick (fun _ => bears) ?_ ?_
  · rintro rfl
    simp [VmShardPhase.Bears] at held
  · intro ended
    simp [VmShardPhase.Bears, ended] at bears

theorem advancedFence_ok {epoch : VmShardEpoch} {current : Option VmShardEpochFence}
    {fence : VmShardEpochFence} (advanced : advancedFence epoch current = .ok fence) :
    fence.epoch = epoch := by
  cases current with
  | none =>
    cases advanced
    rfl
  | some current =>
    unfold advancedFence VmShardEpochFence.advance at advanced
    dsimp only at advanced
    split_ifs at advanced
    cases advanced
    rfl

theorem installNextImage_settles (image : VmSealedShardImage) (live : s.phase ≠ .quarantined) :
    Settles s (fun s' epoch => Changes s (some epoch) none s')
      (Method.call (installNextImage image) s) := by
  unfold installNextImage
  rw [call_get_bind]
  cases first : VmShardEpoch.new s.nextEpoch with
  | none => exact settles_throw _
  | some epoch =>
    cases next : checkedAdd s.nextEpoch 1 with
    | none => exact settles_throw _
    | some nextEpoch =>
      dsimp only
      rw [call_check_bind]
      cases advanced : advancedFence epoch s.epochFence with
      | error error => exact .inl ⟨error, rfl⟩
      | ok fence =>
        have value : epoch.value = s.nextEpoch.toNat := by
          unfold VmShardEpoch.new at first
          split at first
          · cases first
            rfl
          · cases first
        exact settles_modify_pure (.installed image epoch fence nextEpoch value
          (checkedAdd_eq_some_iff.mp next) (advancedFence_ok advanced) live)

theorem signal_settles (supervised : Supervised s) (kind : Signal) (operation name : String)
    (epoch : VmShardEpoch) (sequence : UInt64) :
    Settles s (fun s' _ => Changes s none (some (kind, epoch, sequence)) s')
      (Method.call (signal kind operation name epoch sequence) s) := by
  unfold signal requireActiveSignalPhase
  refine settles_requireOperationPhase fun bears _ => ?_
  refine settles_requireEpoch supervised bears fun own => ?_
  rw [call_get_bind]
  unfold requireAdvancing
  exact settles_refuseIf fun later =>
    settles_modify (.signalled kind epoch sequence own (UInt64.not_le.mp later))

/-- A call of the fence keeps its epoch, and changes nothing where it fails. -/
def KeepsFence {α : Type} (fence : VmShardEpochFence)
    (answer : VmShardEpochFence × Except VmShardEpochError α) : Prop :=
  answer.1.epoch = fence.epoch ∧ ∀ error, answer.2 = .error error → answer.1 = fence

theorem begin_keeps (fence : VmShardEpochFence) (operation : VmShardEpochOperation) :
    KeepsFence fence (fence.begin operation) := by
  unfold KeepsFence VmShardEpochFence.begin
  repeat' split
  all_goals exact ⟨rfl, fun _ failed => by cases failed <;> rfl⟩

theorem commit_keeps (fence : VmShardEpochFence) (operation : VmShardEpochOperation) :
    KeepsFence fence (fence.commit operation) := by
  unfold KeepsFence VmShardEpochFence.commit
  repeat' split
  all_goals exact ⟨rfl, fun _ failed => by cases failed <;> rfl⟩

theorem fenceOperation_settles {α : Type} (supervised : Supervised s) (operation : String)
    {call : VmShardEpochFence → VmShardEpochFence × Except VmShardEpochError α}
    (keeps : ∀ fence, KeepsFence fence (call fence)) :
    Settles s (Quiet s) (Method.call (fenceOperation operation call) s) := by
  unfold fenceOperation
  refine settles_requireOperationPhase fun bears _ => ?_
  obtain ⟨_, _, fence, -, -, there, -⟩ := supervised.bears bears
  rw [call_get_bind, there]
  obtain ⟨epoch, failed⟩ := keeps fence
  dsimp only
  rw [call_modify_bind, call_lift]
  cases result : (call fence).2 with
  | error error =>
    rw [failed error result, ← there]
    exact .inl ⟨.epochOperation error, rfl⟩
  | ok a => exact .inr ⟨_, a, rfl, .fenced fence (call fence).1 there epoch⟩

theorem beginInternalOperation_settles (supervised : Supervised s)
    (operation : VmShardEpochOperation) :
    Settles s (Quiet s) (Method.call (beginInternalOperation operation) s) := by
  unfold beginInternalOperation
  refine settles_requireOperationPhase fun bears _ => ?_
  refine settles_requireEpoch supervised bears fun own => ?_
  rw [call_get_bind]
  cases s.internalOperation with
  | none =>
    refine settles_modify_pure (.internal (some operation) fun op same => ?_)
    cases same
    exact own
  | some current => exact settles_refuseIf fun _ => settles_pure .same

theorem commitInternalOperation_settles (supervised : Supervised s)
    (operation : VmShardEpochOperation) :
    Settles s (Quiet s) (Method.call (commitInternalOperation operation) s) := by
  unfold commitInternalOperation
  refine settles_requireOperationPhase fun bears _ => ?_
  refine settles_requireEpoch supervised bears fun _ => ?_
  rw [call_get_bind]
  cases s.internalOperation with
  | none => exact settles_throw _
  | some current =>
    exact settles_refuseIf fun _ => settles_modify_pure (.internal none fun _ same => by cases same)

theorem abortInternalOperation_settles (operation : VmShardEpochOperation) :
    Settles s (Quiet s) (Method.call (abortInternalOperation operation) s) := by
  unfold abortInternalOperation
  rw [call_get_bind, call_ite]
  split_ifs
  · exact settles_modify_pure (.internal none fun _ same => by cases same)
  · exact settles_pure .same

theorem retireInternalOperation_settles (operation : VmShardEpochOperation) :
    Settles s (Quiet s) (Method.call (retireInternalOperation operation) s) := by
  unfold retireInternalOperation
  rw [call_get_bind]
  cases there : s.epochFence with
  | none => exact settles_pure .same
  | some fence =>
    refine settles_modify_pure (.fenced fence _ there ?_)
    unfold VmShardEpochFence.retireCommitted
    split_ifs <;> rfl

/-- A sealed image and an admitted epoch always have metadata. -/
theorem crashImageMetadata_ok (s : VmExecutionShardSupervisor)
    (references : VmNativeGenerationReferenceSnapshot) :
    ∃ metadata, s.crashImageMetadata references = .ok metadata := by
  unfold crashImageMetadata
  cases s.image with
  | none => exact ⟨none, rfl⟩
  | some image =>
    cases s.epoch with
    | none => exact ⟨none, rfl⟩
    | some epoch =>
      dsimp only
      unfold VmNativeImageDiagnosticMetadata.new failIf
      rw [if_neg (by simp [image.identified]), if_neg image.digested, if_neg epoch.nonzero]
      exact ⟨_, rfl⟩

theorem quarantineDrainTimeout_settles (supervised : Supervised s) (epoch : VmShardEpoch)
    (reason : String) (observedTick : UInt64)
    (references : VmNativeGenerationReferenceSnapshot) :
    Settles s (Quiet s) (Method.call (quarantineDrainTimeoutWithLifetime epoch reason observedTick
      references) s) := by
  unfold quarantineDrainTimeoutWithLifetime
  refine settles_requirePhase fun phase => ?_
  refine settles_requireEpoch supervised (.inr (.inr (.inl phase))) fun _ => ?_
  refine settles_refuseIf fun _ => ?_
  obtain ⟨nativeImage, made⟩ := crashImageMetadata_ok s references
  rw [call_get_bind, made, call_check_bind]
  exact settles_modify (.crashed ⟨s.shardId, some epoch, reason, observedTick, nativeImage⟩
    s.restartCount none .quarantined (by simp [VmShardPhase.Bears]) supervised.spent
    (fun other => absurd rfl other) nofun)

theorem reportCrash_settles (supervised : Supervised s) (reason : String) (observedTick : UInt64)
    (references : VmNativeGenerationReferenceSnapshot) : Settles s (Quiet s)
      (Method.call (reportCrashWithLifetime reason observedTick references) s) := by
  unfold reportCrashWithLifetime
  rw [call_get_bind]
  refine settles_refuseIf fun live => settles_refuseIf fun _ => ?_
  obtain ⟨nativeImage, made⟩ := crashImageMetadata_ok s references
  dsimp only
  rw [made, call_check_bind]
  dsimp only
  have within := supervised.budget fun ended => live (.inr (.inr ended))
  have next : (UInt32.ofNat (min (s.restartCount.toNat + 1) 4294967295)).toNat =
      min (s.restartCount.toNat + 1) 4294967295 := by
    rw [UInt32.toNat_ofNat', Nat.mod_eq_of_lt (by omega)]
  rw [UInt32.le_iff_toNat_le] at within
  rw [call_ite]
  split_ifs with last
  · refine settles_modify (.crashed _ _ none .quarantined (by simp [VmShardPhase.Bears]) ?_
      (fun other => absurd rfl other) nofun)
    omega
  · cases checkedAdd observedTick _ with
    | none => exact settles_throw _
    | some deadline =>
      rw [UInt32.le_iff_toNat_le] at last
      refine settles_modify (.crashed _ _ (some deadline) .restartBackoff
        (by simp [VmShardPhase.Bears]) ?_ (fun _ => ?_) fun _ => Option.some_ne_none deadline)
      · omega
      · rw [UInt32.le_iff_toNat_le]
        omega

theorem restartWhenDue_settles (supervised : Supervised s) (nowTick : UInt64) :
    Settles s (Quiet s) (Method.call (restartWhenDue nowTick) s) := by
  unfold restartWhenDue
  refine settles_requirePhase fun phase => ?_
  rw [call_get_bind]
  cases deadline : s.restartDeadlineTick with
  | none => exact absurd deadline (supervised.deadline phase)
  | some deadlineTick => exact settles_refuseIf fun _ => settles_modify (.restarted phase)

end Methods

/-- Every call settles, with the change that its exchange shows. -/
theorem call_settles {s : VmExecutionShardSupervisor} (supervised : Supervised s)
    (call : SupervisorCall) :
    Settles s (fun s' reply => Changes s (issued (call, .ok reply)) (accepted (call, .ok reply)) s')
      (serve s call) := by
  unfold serve
  cases call with
  | beginNegotiation =>
    refine settles_map (settles_requirePhase fun phase => settles_modify ?_)
    exact .entered .negotiating s.termination s.restartDeadlineTick (by simp [VmShardPhase.Bears])
      (by decide) (by rw [phase]; decide)
  | negotiate proposed =>
    refine settles_map (settles_requirePhase fun phase => ?_)
    rw [call_get_bind]
    refine settles_refuseIf fun _ => settles_modify ?_
    exact .entered .admitting s.termination s.restartDeadlineTick (by simp [VmShardPhase.Bears])
      (by decide) (by rw [phase]; decide)
  | admitImage image =>
    exact settles_map (settles_requirePhase fun phase =>
      installNextImage_settles image (by rw [phase]; decide))
  | replaceDrainedImage drainedEpoch image =>
    refine settles_map (settles_requirePhase fun phase => ?_)
    exact settles_requireEpoch supervised (.inr (.inr (.inl phase))) fun _ =>
      installNextImage_settles image (by rw [phase]; decide)
  | acknowledgeReady epoch =>
    exact settles_map (enterPhase_settles supervised _ (.inl rfl) (.inr (.inl rfl)) epoch)
  | signalHealth epoch sequence =>
    exact settles_map (signal_settles supervised .health _ _ epoch sequence)
  | signalProgress epoch sequence =>
    exact settles_map (signal_settles supervised .progress _ _ epoch sequence)
  | beginEpochOperation operation =>
    exact settles_map (fenceOperation_settles supervised _ fun fence => begin_keeps fence operation)
  | commitEpochOperation operation =>
    exact settles_map (fenceOperation_settles supervised _ fun fence =>
      commit_keeps fence operation)
  | beginInternalOperation operation =>
    exact settles_map (beginInternalOperation_settles supervised operation)
  | commitInternalOperation operation =>
    exact settles_map (commitInternalOperation_settles supervised operation)
  | abortInternalOperation operation =>
    exact settles_map (abortInternalOperation_settles operation)
  | retireInternalOperation operation =>
    exact settles_map (retireInternalOperation_settles operation)
  | beginDrain epoch =>
    exact settles_map (enterPhase_settles supervised _ (.inr (.inl rfl)) (.inr (.inr (.inl rfl)))
      epoch)
  | quarantineDrainTimeout epoch reason observedTick references =>
    exact settles_map (quarantineDrainTimeout_settles supervised epoch reason observedTick
      references)
  | requestGracefulStop epoch =>
    exact settles_map (enterPhase_settles supervised _ (.inr (.inr (.inl rfl)))
      (.inr (.inr (.inr rfl))) epoch)
  | acknowledgeStopped epoch =>
    refine settles_map (settles_requirePhase fun phase => ?_)
    refine settles_requireEpoch supervised (.inr (.inr (.inr phase))) fun _ => settles_modify ?_
    exact .entered .stopped _ s.restartDeadlineTick (by simp [VmShardPhase.Bears]) (by decide)
      (by rw [phase]; decide)
  | forceTerminate =>
    refine settles_map ?_
    unfold forceTerminate
    rw [call_get_bind]
    refine settles_refuseIf fun live => settles_modify ?_
    exact .entered .stopped _ none (by simp [VmShardPhase.Bears]) (by decide)
      fun ended => live (.inr ended)
  | reportCrash reason observedTick references =>
    exact settles_map (reportCrash_settles supervised reason observedTick references)
  | restartWhenDue nowTick => exact settles_map (restartWhenDue_settles supervised nowTick)

/-! ## Runs -/

theorem supervised_new (shardId : VmExecutionShardId) (policy : VmShardSupervisorPolicy) :
    Supervised (.new shardId policy) where
  bears := by simp [VmShardPhase.Bears, VmExecutionShardSupervisor.new]
  epoch := nofun
  fence := nofun
  internal := nofun
  deadline := nofun
  budget _ := UInt32.zero_le
  spent := Nat.zero_le _

section Step

variable {s s' : VmExecutionShardSupervisor} {epoch : Option VmShardEpoch}
  {taken : Option (Signal × VmShardEpoch × UInt64)}

/-- Step lemma of the invariant. -/
theorem Supervised.changes (supervised : Supervised s) (change : Changes s epoch taken s') :
    Supervised s' := by
  obtain ⟨bears, own, fences, internal, deadline, budget, spent⟩ := supervised
  cases change with
  | same => exact ⟨bears, own, fences, internal, deadline, budget, spent⟩
  | entered phase termination restartDeadlineTick held waits live =>
    exact ⟨fun h => bears (held h), own, fences, internal, fun h => absurd h waits,
      fun _ => budget live, spent⟩
  | installed image epoch fence nextEpoch value next current live =>
    have below : epoch.value < nextEpoch.toNat := by omega
    refine ⟨fun _ => ⟨image, epoch, fence, rfl, rfl, rfl, current⟩, ?_, ?_, nofun, nofun,
      fun _ => budget live, spent⟩
    · rintro _ ⟨⟩
      exact below
    · rintro _ ⟨⟩
      rw [current]
      exact below
  | signalled kind epoch sequence there later =>
    exact ⟨bears, own, fences, internal, deadline, budget, spent⟩
  | fenced fence fence' there same =>
    refine ⟨fun h => ?_, own, ?_, internal, deadline, budget, spent⟩
    · obtain ⟨image, epoch, _, isImage, isEpoch, isFence, current⟩ := bears h
      cases there.symm.trans isFence
      exact ⟨image, epoch, fence', isImage, isEpoch, rfl, same.trans current⟩
    · rintro _ ⟨⟩
      rw [same]
      exact fences fence there
  | internal operation belongs => exact ⟨bears, own, fences, belongs, deadline, budget, spent⟩
  | crashed report restartCount restartDeadlineTick phase ended within below waits =>
    exact ⟨fun h => absurd h ended, own, fences, internal, waits, below, within⟩
  | restarted phase =>
    refine ⟨?_, nofun, fences, nofun, nofun, fun _ => budget (by rw [phase]; decide), spent⟩
    simp [VmShardPhase.Bears]

/-- A change issues the next epoch, if any. -/
theorem Changes.nextEpoch (change : Changes s epoch taken s') :
    s'.nextEpoch.toNat = s.nextEpoch.toNat + epoch.toList.length ∧
      ∀ e ∈ epoch, e.value = s.nextEpoch.toNat := by
  cases change with
  | installed image epoch fence nextEpoch value next =>
    refine ⟨next, ?_⟩
    rintro _ ⟨⟩
    exact value
  | _ => exact ⟨rfl, nofun⟩

theorem last_record (signals : VmShardSignalProgress) (sequence : UInt64) (kind other : Signal) :
    (signals.record sequence kind).last other =
      if kind = other then sequence else signals.last other := by
  cases kind <;> cases other <;> rfl

/-- What was accepted of an epoch that is still current stays the last accepted. -/
theorem Changes.signals (change : Changes s epoch taken s') (kind : Signal) {current : VmShardEpoch}
    (there : s'.epoch = some current) (older : current.value < s.nextEpoch.toNat) :
    s.epoch = some current ∧ s.signals.last kind ≤ s'.signals.last kind := by
  cases change with
  | installed image epoch fence nextEpoch value =>
    cases there
    omega
  | signalled kind' epoch sequence own later =>
    refine ⟨there, ?_⟩
    dsimp only
    rw [last_record]
    split_ifs with same
    · exact UInt64.le_of_lt (same ▸ later)
    · exact UInt64.le_refl _
  | restarted => cases there
  | _ => exact ⟨there, UInt64.le_refl _⟩

theorem Changes.accepts (change : Changes s epoch taken s') {kind : Signal} {own : VmShardEpoch}
    {sequence : UInt64} (mem : (kind, own, sequence) ∈ taken) :
    s.epoch = some own ∧ s.signals.last kind < sequence ∧ s'.signals.last kind = sequence := by
  cases change with
  | signalled kind' epoch sequence' there later =>
    cases mem
    refine ⟨there, later, ?_⟩
    dsimp only
    rw [last_record, if_pos rfl]
  | _ => cases mem

end Step

/-- Every epoch is issued after the smaller ones, and a signal is accepted only after the smaller
ones of its kind and epoch. -/
structure Ordered (history : List (SupervisorCall × SupervisorResult)) : Prop where
  epochs : (history.filterMap issued).Pairwise fun first next => first.value < next.value
  signals : (history.filterMap accepted).Pairwise fun first next =>
    first.1 = next.1 → first.2.1 = next.2.1 → first.2.2 < next.2.2

/-- What a supervisor holds of its past. -/
structure Ledger (s : VmExecutionShardSupervisor)
    (history : List (SupervisorCall × SupervisorResult)) : Prop where
  supervised : Supervised s
  ordered : Ordered history
  below : ∀ epoch ∈ history.filterMap issued, epoch.value < s.nextEpoch.toNat
  reached : ∀ kind epoch sequence, (kind, epoch, sequence) ∈ history.filterMap accepted →
    epoch.value < s.nextEpoch.toNat ∧ (s.epoch = some epoch → sequence ≤ s.signals.last kind)

/-- Step lemma of the history. -/
theorem Ledger.changes {s s' : VmExecutionShardSupervisor}
    {history : List (SupervisorCall × SupervisorResult)}
    {exchange : SupervisorCall × SupervisorResult} (ledger : Ledger s history)
    (change : Changes s (issued exchange) (accepted exchange) s') :
    Ledger s' (history ++ [exchange]) := by
  obtain ⟨next, isNext⟩ := change.nextEpoch
  have listed : ∀ {α : Type} (f : SupervisorCall × SupervisorResult → Option α),
      (history ++ [exchange]).filterMap f = history.filterMap f ++ (f exchange).toList := by
    intro α f
    rw [filterMap_append]
    cases same : f exchange <;> simp [same]
  have fresh : ∀ kind epoch sequence, (kind, epoch, sequence) ∈ accepted exchange →
      ∀ kind' epoch' sequence', (kind', epoch', sequence') ∈ history.filterMap accepted →
        kind' = kind → epoch' = epoch → sequence' < sequence := by
    rintro kind epoch sequence mem kind' epoch' sequence' old rfl rfl
    obtain ⟨there, later, -⟩ := change.accepts mem
    exact UInt64.lt_of_le_of_lt ((ledger.reached _ _ _ old).2 there) later
  refine ⟨ledger.supervised.changes change, ⟨?_, ?_⟩, fun epoch mem => ?_,
    fun kind epoch sequence mem => ?_⟩
  · rw [listed]
    refine pairwise_append.mpr ⟨ledger.ordered.epochs, Option.pairwise_toList, ?_⟩
    intro first mem epoch new
    rw [isNext epoch (Option.mem_toList.mp new)]
    exact ledger.below first mem
  · rw [listed]
    refine pairwise_append.mpr ⟨ledger.ordered.signals, Option.pairwise_toList, ?_⟩
    exact fun ⟨kind', epoch', sequence'⟩ old ⟨kind, epoch, sequence⟩ new =>
      fresh kind epoch sequence (Option.mem_toList.mp new) kind' epoch' sequence' old
  · rw [listed] at mem
    rcases mem_append.mp mem with old | new
    · have := ledger.below epoch old
      omega
    · have here := Option.mem_toList.mp new
      rw [next, isNext epoch here, here]
      exact Nat.lt_succ_self _
  · rw [listed] at mem
    rcases mem_append.mp mem with old | new
    · obtain ⟨below, reached⟩ := ledger.reached kind epoch sequence old
      refine ⟨by omega, fun there => ?_⟩
      obtain ⟨before, later⟩ := change.signals kind there below
      exact UInt64.le_trans (reached before) later
    · obtain ⟨there, -, last⟩ := change.accepts (Option.mem_toList.mp new)
      have below := ledger.supervised.epoch epoch there
      exact ⟨by omega, fun _ => UInt64.le_of_eq last.symm⟩

/-- A call that fails leaves the supervisor as it was, and no call panics. -/
def Refuses (s : VmExecutionShardSupervisor) (call : SupervisorCall) : Prop :=
  ∀ fault, (serve s call).2 = .error fault →
    (∃ error, fault = .returned error) ∧ (serve s call).1 = s

theorem serve_ledger {s : VmExecutionShardSupervisor}
    {history : List (SupervisorCall × SupervisorResult)} (ledger : Ledger s history)
    (call : SupervisorCall) :
    Ledger (serve s call).1 (history ++ [(call, (serve s call).2)]) ∧ Refuses s call := by
  rcases call_settles ledger.supervised call with ⟨error, run⟩ | ⟨s', reply, run, change⟩
  · rw [Refuses, run]
    refine ⟨ledger.changes ?_, ?_⟩
    · have none : accepted (call, .error (.returned error)) = none := by cases call <;> rfl
      rw [none]
      exact .same
    · rintro _ ⟨⟩
      exact ⟨⟨error, rfl⟩, rfl⟩
  · rw [Refuses, run]
    exact ⟨ledger.changes change, nofun⟩

/-- **Lifecycle of a supervised shard.** In every run of the calls of a supervisor its invariant
holds: a phase with an image has its image, its epoch and a fence at this epoch, below the next
epoch; an internal operation belongs to the current epoch; the restarts are within the budget and
one. The epochs of the run increase, and so do the signals that it accepted of one kind in one
epoch. No call panics, and one that fails changes nothing. -/
theorem supervisor_lifecycle (shardId : VmExecutionShardId) (policy : VmShardSupervisorPolicy)
    (calls : List SupervisorCall) :
    Supervised (replay serve (.new shardId policy) calls).1 ∧
      Ordered (replay serve (.new shardId policy) calls).2 ∧
      Guarded serve Refuses (.new shardId policy) calls := by
  have start : Ledger (.new shardId policy) [] :=
    ⟨supervised_new shardId policy, ⟨List.Pairwise.nil, List.Pairwise.nil⟩, nofun, nofun⟩
  have ledger := replay_invariant serve Ledger (fun _ _ call h => (serve_ledger h call).1) _ []
    calls start
  refine ⟨ledger.supervised, ledger.ordered, ?_⟩
  clear ledger
  generalize VmExecutionShardSupervisor.new shardId policy = s at start
  generalize [] = history at start
  induction calls generalizing s history with
  | nil => trivial
  | cons call calls ih =>
    obtain ⟨after, refuses⟩ := serve_ledger start call
    exact ⟨refuses, ih _ _ after⟩

end Terlan.ExecutionShard
