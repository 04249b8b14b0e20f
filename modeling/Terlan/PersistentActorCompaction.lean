/-
  Compaction plans of persistent actors. A candidate is a later snapshot and the events that
  are kept behind it. The plan is accepted when the snapshot is what the replay evidence says,
  nothing is pruned without policy, and the kept events follow the snapshot without a gap and
  have sequences that the original log has.

  What is not compared is how far the kept events go, what is in them, and where the cut is
  against the sequence that the policy retains from. `compaction_loses_nothing_iff` says which
  candidates lose nothing.
-/
import Terlan.Lib.Compaction
import Terlan.PersistentActorStore.Reload

namespace Terlan.PersistentActorCompaction

open Terlan.Lib Terlan.TermFormat Terlan.PersistentActorStore List
open Terlan.PersistentActorStore.VmFileBackedPersistentActorStore (counter counterSchema)

/-! ## Plans -/

structure VmPersistentActorRetentionPolicy where
  retainFromSequence : UInt64
  schemaMigrationFloor : UInt64
  auditFloor : UInt64
  allowMailboxCheckpointPrune : Bool
  allowTimerCheckpointPrune : Bool
  allowResourceHandleCleanup : Bool

def VmPersistentActorRetentionPolicy.new (retainFromSequence : UInt64) :
    VmPersistentActorRetentionPolicy where
  retainFromSequence := retainFromSequence
  schemaMigrationFloor := 0
  auditFloor := 0
  allowMailboxCheckpointPrune := false
  allowTimerCheckpointPrune := false
  allowResourceHandleCleanup := false

/-- What applying the log is reported to give. -/
structure VmPersistentActorReplayEquivalence where
  finalState : ReplValue
  finalMailboxCheckpoint : List ReplValue
  finalTimerCheckpoint : List UInt64
  finalResourceHandles : List String
  finalSequence : UInt64

def VmPersistentActorReplayEquivalence.fromSnapshot (snapshot : VmPersistentActorSnapshot) :
    VmPersistentActorReplayEquivalence where
  finalState := snapshot.state
  finalMailboxCheckpoint := snapshot.mailboxCheckpoint
  finalTimerCheckpoint := snapshot.timerCheckpoint
  finalResourceHandles := snapshot.resourceHandles
  finalSequence := snapshot.lastEventSequence

structure VmPersistentActorCompactionCandidate where
  snapshot : VmPersistentActorSnapshot
  retainedEvents : List VmPersistentActorEvent

structure VmPersistentActorCompactionPlan where
  compactedSnapshotGeneration : UInt64
  retainedEventSequences : List UInt64
  retainedResourceHandles : List String
  reclaimedResourceHandles : List String
deriving DecidableEq

inductive VmPersistentActorCompactionError where
  | emptyRetentionPolicy
  | retentionBeforeSchemaMigrationFloor (retainFromSequence schemaMigrationFloor : UInt64)
  | retentionBeforeAuditFloor (retainFromSequence auditFloor : UInt64)
  | actorChanged
  | schemaChanged
  | snapshotGenerationNotAdvanced
  | finalSequenceMovedBackward
  | compactedSnapshotNotEquivalent
  | retainedEventBeforeCompactedSnapshot (sequence compactedSequence : UInt64)
  | retainedEventGap (expected actual : UInt64)
  | retainedEventNotInOriginalLog (sequence : UInt64)
  | mailboxCheckpointPrunedWithoutPolicy
  | timerCheckpointPrunedWithoutPolicy
  | resourceHandlePrunedWithoutPolicy (handle : String)
deriving DecidableEq

def validateCheckpointRetention (before : VmPersistentActorReplay)
    (compacted : VmPersistentActorSnapshot) (policy : VmPersistentActorRetentionPolicy) :
    Except VmPersistentActorCompactionError Unit := do
  failIf (¬ policy.allowMailboxCheckpointPrune ∧
      compacted.mailboxCheckpoint.length < before.snapshot.mailboxCheckpoint.length)
    .mailboxCheckpointPrunedWithoutPolicy
  failIf (¬ policy.allowTimerCheckpointPrune ∧
      compacted.timerCheckpoint.length < before.snapshot.timerCheckpoint.length)
    .timerCheckpointPrunedWithoutPolicy
  if policy.allowResourceHandleCleanup then return ()
  else
    match before.snapshot.resourceHandles.find? (· ∉ compacted.resourceHandles) with
    | some handle => throw (.resourceHandlePrunedWithoutPolicy handle)
    | none => return ()

/-- The loop over the kept events. The sequence that comes next wraps around. -/
def validateRetainedEvents (originalSequences : List UInt64)
    (compacted : VmPersistentActorSnapshot) :
    UInt64 → List VmPersistentActorEvent → Except VmPersistentActorCompactionError Unit
  | _, [] => .ok ()
  | expected, event :: events => do
    failIf (event.actorId ≠ compacted.actorId) .actorChanged
    failIf (event.schema ≠ compacted.schema) .schemaChanged
    failIf (event.sequence ≤ compacted.lastEventSequence)
      (.retainedEventBeforeCompactedSnapshot event.sequence compacted.lastEventSequence)
    failIf (event.sequence ∉ originalSequences) (.retainedEventNotInOriginalLog event.sequence)
    failIf (event.sequence ≠ expected) (.retainedEventGap expected event.sequence)
    validateRetainedEvents originalSequences compacted (event.sequence + 1) events

def validateRetainedEventSuffix (before : VmPersistentActorReplay)
    (candidate : VmPersistentActorCompactionCandidate) :
    Except VmPersistentActorCompactionError Unit :=
  validateRetainedEvents (before.events.map (·.sequence)) candidate.snapshot
    (candidate.snapshot.lastEventSequence + 1) candidate.retainedEvents

def planPersistentActorCompaction (before : VmPersistentActorReplay)
    (replayEquivalence : VmPersistentActorReplayEquivalence)
    (candidate : VmPersistentActorCompactionCandidate) (policy : VmPersistentActorRetentionPolicy) :
    Except VmPersistentActorCompactionError VmPersistentActorCompactionPlan := do
  failIf (policy.retainFromSequence = 0) .emptyRetentionPolicy
  failIf (policy.retainFromSequence < policy.schemaMigrationFloor)
    (.retentionBeforeSchemaMigrationFloor policy.retainFromSequence policy.schemaMigrationFloor)
  failIf (policy.retainFromSequence < policy.auditFloor)
    (.retentionBeforeAuditFloor policy.retainFromSequence policy.auditFloor)
  failIf (candidate.snapshot.actorId ≠ before.snapshot.actorId) .actorChanged
  failIf (candidate.snapshot.schema ≠ before.snapshot.schema) .schemaChanged
  failIf (candidate.snapshot.generation ≤ before.snapshot.generation)
    .snapshotGenerationNotAdvanced
  failIf (replayEquivalence.finalSequence < before.snapshot.lastEventSequence)
    .finalSequenceMovedBackward
  failIf (candidate.snapshot.state ≠ replayEquivalence.finalState ∨
      candidate.snapshot.mailboxCheckpoint ≠ replayEquivalence.finalMailboxCheckpoint ∨
      candidate.snapshot.timerCheckpoint ≠ replayEquivalence.finalTimerCheckpoint ∨
      candidate.snapshot.resourceHandles ≠ replayEquivalence.finalResourceHandles ∨
      candidate.snapshot.lastEventSequence ≠ replayEquivalence.finalSequence)
    .compactedSnapshotNotEquivalent
  validateCheckpointRetention before candidate.snapshot policy
  validateRetainedEventSuffix before candidate
  return {
    compactedSnapshotGeneration := candidate.snapshot.generation
    retainedEventSequences := candidate.retainedEvents.map (·.sequence)
    retainedResourceHandles := candidate.snapshot.resourceHandles
    reclaimedResourceHandles :=
      before.snapshot.resourceHandles.filter (· ∉ candidate.snapshot.resourceHandles) }

/-! ## What an accepted plan has checked -/

variable {before : VmPersistentActorReplay} {evidence : VmPersistentActorReplayEquivalence}
  {candidate : VmPersistentActorCompactionCandidate} {policy : VmPersistentActorRetentionPolicy}
  {plan : VmPersistentActorCompactionPlan}

/-- Each kept event is of the candidate's actor and schema, later than its snapshot, and has the
sequence of an original event. -/
theorem validateRetainedEvents_ok {sequences : List UInt64} {compacted : VmPersistentActorSnapshot}
    {expected : UInt64} {events : List VmPersistentActorEvent}
    (ok : validateRetainedEvents sequences compacted expected events = .ok ()) :
    ∀ event ∈ events, event.actorId = compacted.actorId ∧ event.schema = compacted.schema ∧
      compacted.lastEventSequence < event.sequence ∧ event.sequence ∈ sequences := by
  induction events generalizing expected with
  | nil => exact fun event mem => by cases mem
  | cons first events ih =>
    rw [validateRetainedEvents] at ok
    obtain ⟨actor, ok⟩ := check_bind_ok_iff.mp ok
    obtain ⟨schema, ok⟩ := check_bind_ok_iff.mp ok
    obtain ⟨later, ok⟩ := check_bind_ok_iff.mp ok
    obtain ⟨original, ok⟩ := check_bind_ok_iff.mp ok
    obtain ⟨-, ok⟩ := check_bind_ok_iff.mp ok
    rw [failIf_ok_iff] at actor schema later original
    exact forall_mem_cons.mpr
      ⟨⟨not_not.mp actor, not_not.mp schema, UInt64.not_le.mp later, not_not.mp original⟩, ih ok⟩

/-! ## Actors -/

/-- What the events of an actor work on. -/
structure ActorState where
  state : ReplValue
  mailboxCheckpoint : List ReplValue
  timerCheckpoint : List UInt64
  resourceHandles : List String

def stateOf (snapshot : VmPersistentActorSnapshot) : ActorState where
  state := snapshot.state
  mailboxCheckpoint := snapshot.mailboxCheckpoint
  timerCheckpoint := snapshot.timerCheckpoint
  resourceHandles := snapshot.resourceHandles

def finalOf (evidence : VmPersistentActorReplayEquivalence) : ActorState where
  state := evidence.finalState
  mailboxCheckpoint := evidence.finalMailboxCheckpoint
  timerCheckpoint := evidence.finalTimerCheckpoint
  resourceHandles := evidence.finalResourceHandles

/-- The original events up to a sequence. -/
def eventsUpTo (before : VmPersistentActorReplay) (sequence : UInt64) :
    List VmPersistentActorEvent :=
  before.events.filter (·.sequence ≤ sequence)

/-- The evidence is what the original events up to its final sequence give. -/
def EvidenceTrue (apply : ActorState → VmPersistentActorEvent → ActorState)
    (before : VmPersistentActorReplay) (evidence : VmPersistentActorReplayEquivalence) : Prop :=
  (eventsUpTo before evidence.finalSequence).foldl apply (stateOf before.snapshot) =
    finalOf evidence

/-- The candidate replays to what the original replays to. -/
def SameReplay (apply : ActorState → VmPersistentActorEvent → ActorState)
    (before : VmPersistentActorReplay) (candidate : VmPersistentActorCompactionCandidate) : Prop :=
  candidate.retainedEvents.foldl apply (stateOf candidate.snapshot) =
    before.events.foldl apply (stateOf before.snapshot)

/-- What the policy retains is kept. -/
def KeepsRetained (before : VmPersistentActorReplay)
    (candidate : VmPersistentActorCompactionCandidate) (policy : VmPersistentActorRetentionPolicy) :
    Prop :=
  ∀ event ∈ before.events, policy.retainFromSequence ≤ event.sequence →
    event ∈ candidate.retainedEvents

/-- The sequences that the loop over the kept events adds one to. -/
def NoOverflow (candidate : VmPersistentActorCompactionCandidate) : Prop :=
  ∀ sequence ∈ candidate.snapshot.lastEventSequence :: candidate.retainedEvents.map (·.sequence),
    sequence.toNat + 1 < 2 ^ 64

/-- The condition: the log is cut in two, the part behind the cut is kept as it is, the part
before it ends below what the policy retains, and no sequence from the cut on is the last. -/
structure CutsLog (before : VmPersistentActorReplay)
    (candidate : VmPersistentActorCompactionCandidate) (policy : VmPersistentActorRetentionPolicy) :
    Prop where
  cut : before.events =
    eventsUpTo before candidate.snapshot.lastEventSequence ++ candidate.retainedEvents
  below : ∀ event ∈ eventsUpTo before candidate.snapshot.lastEventSequence,
    event.sequence < policy.retainFromSequence
  counted : ∀ sequence ∈
    candidate.snapshot.lastEventSequence :: candidate.retainedEvents.map (·.sequence),
      sequence ≠ 18446744073709551615

/-! ## Telling logs apart -/

/-- Everything that an event says. -/
def noteOf (event : VmPersistentActorEvent) : ReplValue :=
  .tuple [.string event.actorId.value, .string event.schema.id, .int event.schema.version.toInt64,
    .int event.sequence.toInt64, event.payload]

theorem noteOf_injective {event event' : VmPersistentActorEvent}
    (same : noteOf event = noteOf event') : event = event' := by
  obtain ⟨⟨actor, _⟩, ⟨schema, version, _, _⟩, sequence, payload, _⟩ := event
  obtain ⟨⟨actor', _⟩, ⟨schema', version', _, _⟩, sequence', payload', _⟩ := event'
  simp only [noteOf, ReplValue.tuple.injEq, List.cons.injEq, ReplValue.string.injEq,
    ReplValue.int.injEq, and_true] at same
  obtain ⟨rfl, rfl, sameVersion, sameSequence, rfl⟩ := same
  obtain rfl : version = version' := congrArg Int64.toUInt64 sameVersion
  obtain rfl : sequence = sequence' := congrArg Int64.toUInt64 sameSequence
  rfl

/-- An event that leaves its note in the mailbox, behind as many units as are asked for. -/
def takeNote (bound : Nat) (state : ActorState) (event : VmPersistentActorEvent) : ActorState :=
  { state with
    mailboxCheckpoint := state.mailboxCheckpoint ++ (List.replicate bound .unit ++ [noteOf event]) }

theorem notes_takeNote (bound : Nat) :
    Compaction.Notes (fun state : ActorState => state.mailboxCheckpoint.length) bound
      (takeNote bound) where
  injective state event state' event' same := by
    obtain ⟨own, mailbox, timers, handles⟩ := state
    obtain ⟨own', mailbox', timers', handles'⟩ := state'
    simp only [takeNote, ActorState.mk.injEq] at same
    obtain ⟨rfl, sameMailbox, rfl, rfl⟩ := same
    obtain ⟨rfl, notes⟩ := append_inj' sameMailbox (by simp)
    have last := (append_inj' notes rfl).2
    exact ⟨rfl, noteOf_injective (List.cons.inj last).1⟩
  beyond state event := by
    simp only [takeNote, length_append, length_replicate, length_singleton]
    omega

/-! ## What an accepted plan loses -/

theorem plan_ok (accepted : planPersistentActorCompaction before evidence candidate policy =
      .ok plan) : stateOf candidate.snapshot = finalOf evidence ∧
      candidate.snapshot.lastEventSequence = evidence.finalSequence ∧
      validateRetainedEventSuffix before candidate = .ok () := by
  unfold planPersistentActorCompaction at accepted
  obtain ⟨-, accepted⟩ := check_bind_ok_iff.mp accepted
  obtain ⟨-, accepted⟩ := check_bind_ok_iff.mp accepted
  obtain ⟨-, accepted⟩ := check_bind_ok_iff.mp accepted
  obtain ⟨-, accepted⟩ := check_bind_ok_iff.mp accepted
  obtain ⟨-, accepted⟩ := check_bind_ok_iff.mp accepted
  obtain ⟨-, accepted⟩ := check_bind_ok_iff.mp accepted
  obtain ⟨-, accepted⟩ := check_bind_ok_iff.mp accepted
  obtain ⟨equivalent, accepted⟩ := check_bind_ok_iff.mp accepted
  obtain ⟨-, accepted⟩ := check_bind_ok_iff.mp accepted
  obtain ⟨suffix, -⟩ := check_bind_ok_iff.mp accepted
  rw [failIf_ok_iff] at equivalent
  simp only [not_or, not_not] at equivalent
  obtain ⟨state, mailbox, timers, handles, sequence⟩ := equivalent
  refine ⟨?_, sequence, suffix⟩
  simp only [stateOf, finalOf, state, mailbox, timers, handles]

/-- The kept events are behind the cut. -/
theorem retained_later (suffix : validateRetainedEventSuffix before candidate = .ok ())
    {event : VmPersistentActorEvent} (mem : event ∈ candidate.retainedEvents) :
    ¬ event.sequence ≤ candidate.snapshot.lastEventSequence :=
  UInt64.not_le.mpr (validateRetainedEvents_ok suffix event mem).2.2.1

/-- Given the cut, what the policy retains is kept exactly if nothing of it is before the cut. -/
theorem keepsRetained_iff (suffix : validateRetainedEventSuffix before candidate = .ok ())
    (cut : before.events =
      eventsUpTo before candidate.snapshot.lastEventSequence ++ candidate.retainedEvents) :
    KeepsRetained before candidate policy ↔
      ∀ event ∈ eventsUpTo before candidate.snapshot.lastEventSequence,
        event.sequence < policy.retainFromSequence := by
  constructor
  · intro keeps event mem
    by_contra retained
    have original : event ∈ before.events := (mem_filter.mp mem).1
    have kept := keeps event original (UInt64.not_lt.mp retained)
    exact retained_later suffix kept (of_decide_eq_true (mem_filter.mp mem).2)
  · intro below event mem retained
    rw [cut, mem_append] at mem
    rcases mem with old | kept
    · exact absurd (below event old) (UInt64.not_lt.mpr retained)
    · exact kept

theorem toNat_succ_lt_iff (sequence : UInt64) :
    sequence.toNat + 1 < 2 ^ 64 ↔ sequence ≠ 18446744073709551615 := by
  have small := sequence.toNat_lt
  constructor
  · rintro counted rfl
    exact absurd counted (by decide)
  · intro notLast
    by_contra full
    apply notLast
    apply UInt64.toNat_inj.mp
    show sequence.toNat = 18446744073709551615
    omega

/-- Of every candidate that is accepted with true evidence: it replays to the same state however
events are applied, keeps what the policy retains and counts without overflow, exactly if it
cuts the log. -/
theorem compaction_loses_nothing_iff {apply : ActorState → VmPersistentActorEvent → ActorState}
    (accepted : planPersistentActorCompaction before evidence candidate policy = .ok plan)
    (evidenceTrue : EvidenceTrue apply before evidence) :
    (∀ apply : ActorState → VmPersistentActorEvent → ActorState,
        EvidenceTrue apply before evidence →
          SameReplay apply before candidate ∧ KeepsRetained before candidate policy ∧
            NoOverflow candidate) ↔ CutsLog before candidate policy := by
  obtain ⟨snapshot, sequence, suffix⟩ := plan_ok accepted
  unfold EvidenceTrue at evidenceTrue ⊢
  rw [← snapshot, ← sequence] at evidenceTrue ⊢
  have same := Compaction.compacts_iff evidenceTrue
    (fun event mem => retained_later suffix mem) (fun bound => ⟨_, notes_takeNote bound⟩)
  have counted : NoOverflow candidate ↔ ∀ sequence ∈
      candidate.snapshot.lastEventSequence :: candidate.retainedEvents.map (·.sequence),
        sequence ≠ 18446744073709551615 :=
    forall₂_congr fun sequence _ => toNat_succ_lt_iff sequence
  constructor
  · intro loses
    have cut := same.mp fun apply run => (loses apply run).1.symm
    obtain ⟨-, keeps, numbers⟩ := loses apply evidenceTrue
    exact ⟨cut, (keepsRetained_iff suffix cut).mp keeps, counted.mp numbers⟩
  · intro cuts apply run
    exact ⟨(same.mpr cuts.cut apply run).symm, (keepsRetained_iff suffix cuts.cut).mpr cuts.below,
      counted.mpr cuts.counted⟩

/-! ## Runs -/

/-- A snapshot of a counter. -/
def counterAt (generation : UInt64) (generated : generation ≠ 0) (value : Int64)
    (lastEventSequence : UInt64) : VmPersistentActorSnapshot where
  actorId := counter
  schema := counterSchema
  generation := generation
  state := .int value
  mailboxCheckpoint := []
  timerCheckpoint := []
  resourceHandles := []
  lastEventSequence := lastEventSequence
  generated := generated
  handled := fun _ mem => by cases mem

/-- An event that sets the counter. -/
def counterTo (sequence : UInt64) (sequenced : sequence ≠ 0) (value : Int64) :
    VmPersistentActorEvent :=
  ⟨counter, counterSchema, sequence, .int value, sequenced⟩

def setCounter (state : ActorState) (event : VmPersistentActorEvent) : ActorState :=
  { state with state := event.payload }

theorem one_counts : (1 : UInt64) ≠ 0 := by decide

theorem two_counts : (2 : UInt64) ≠ 0 := by decide

def exampleReplay : VmPersistentActorReplay where
  snapshot := counterAt 1 one_counts 0 0
  events := [counterTo 1 one_counts 1, counterTo 2 two_counts 2]

def exampleEvidence : VmPersistentActorReplayEquivalence :=
  .fromSnapshot (counterAt 2 two_counts 1 1)

/-- The second event is left out. -/
def droppedCandidate : VmPersistentActorCompactionCandidate where
  snapshot := counterAt 2 two_counts 1 1
  retainedEvents := []

def keptCandidate : VmPersistentActorCompactionCandidate where
  snapshot := counterAt 2 two_counts 1 1
  retainedEvents := [counterTo 2 two_counts 2]

theorem exampleEvidence_true : EvidenceTrue setCounter exampleReplay exampleEvidence := rfl

/-- A snapshot after the first of two events is accepted without the second one. -/
theorem trailing_event_dropped :
    (planPersistentActorCompaction exampleReplay exampleEvidence droppedCandidate (.new 2) =
        .ok ⟨2, [], [], []⟩ ∧ EvidenceTrue setCounter exampleReplay exampleEvidence) ∧
    ¬ SameReplay setCounter exampleReplay droppedCandidate := by
  refine ⟨⟨by decide +kernel, exampleEvidence_true⟩, fun same => ?_⟩
  have counters : ReplValue.int 1 = .int 2 := congrArg ActorState.state same
  exact absurd counters (by decide +kernel)

/-- The example with its second event kept. -/
theorem compaction_loses_nothing_iff_kept : SameReplay setCounter exampleReplay keptCandidate := by
  have accepted : planPersistentActorCompaction exampleReplay exampleEvidence keptCandidate
      (.new 2) = .ok ⟨2, [2], [], []⟩ := by decide +kernel
  have cuts : CutsLog exampleReplay keptCandidate (.new 2) := {
    cut := rfl
    below := by decide +kernel
    counted :=
      forall_mem_cons.mpr ⟨by decide, forall_mem_cons.mpr ⟨by decide, by simp⟩⟩ }
  exact ((compaction_loses_nothing_iff accepted exampleEvidence_true).mpr cuts setCounter
    exampleEvidence_true).1

end Terlan.PersistentActorCompaction
