/-
  Restoring an export of a persistent actor: the plan checks the export against the target, then
  the snapshot and each event behind it are written to the destination, one after the other.

  The destination is an adapter: a store in memory, or behind a file, where every write may meet
  a fault of the disk. The plan does not look at the destination, and nothing is taken back when
  a write is refused. `restore_all_or_nothing_iff` says when a restore is all or nothing.

  How a text is shown by `Debug` is a parameter.
-/
import Terlan.Lib.Sorted
import Terlan.PersistentActorStore.Durability

namespace Terlan.PersistentActorRestore

open Terlan.Lib Terlan.TermFormat Terlan.PersistentActorStore List
open Std (ExtTreeMap)

/-! ## Exports and targets -/

/-- As far as a restore reads it. -/
structure VmModelSyncChange where
  sequence : UInt64
  model : String

structure VmPersistentActorExport where
  snapshot : VmPersistentActorSnapshot
  retainedEvents : List VmPersistentActorEvent
  modelSyncChanges : List VmModelSyncChange
  redactedFields : List String
  compacted : Bool
  sourceAdapterKind : String
  checksum : String

def VmPersistentActorExport.computeChecksum (debug : String → String)
    (self : VmPersistentActorExport) : String :=
  let eventSequences := ",".intercalate (self.retainedEvents.map (toString ·.sequence))
  let modelSyncSequences :=
    ",".intercalate (self.modelSyncChanges.map fun change => s!"{change.model}:{change.sequence}")
  let resources := ",".intercalate self.snapshot.resourceHandles
  let redactions := ",".intercalate self.redactedFields
  s!"actor=VmPersistentActorId({debug self.snapshot.actorId.value});" ++
    s!"schema={self.snapshot.schema.id}:{self.snapshot.schema.version};" ++
    s!"generation={self.snapshot.generation};sequence={self.snapshot.lastEventSequence};" ++
    s!"events={eventSequences};model_sync={modelSyncSequences};resources={resources};" ++
    s!"redactions={redactions};compacted={self.compacted};adapter={self.sourceAdapterKind}"

structure VmPersistentActorRestoreCapabilities where
  supportsCompactedSnapshotRestore : Bool
  supportsResourceHandleRestore : Bool

structure VmPersistentActorModelSyncContinuity where
  model : String
  retainedFromSequence : UInt64

structure VmPersistentActorRestoreTarget where
  actorId : VmPersistentActorId
  schema : VmPersistentActorSchema
  availableResourceHandles : List String
  capabilities : VmPersistentActorRestoreCapabilities
  adapterKind : String
  allowCrossAdapterRestore : Bool
  requiredModelSyncStreams : List VmPersistentActorModelSyncContinuity

structure VmPersistentActorCompactionRestore where
  compactedSnapshotGeneration : UInt64
  compactedThroughSequence : UInt64
  retainedSuffixStart : Option UInt64
  retainedSuffixEnd : Option UInt64

structure VmPersistentActorModelSyncRestoreStream where
  model : String
  retainedFromSequence : UInt64
  retainedToSequence : UInt64
  changeCount : Nat

structure VmPersistentActorRestorePlan where
  snapshotGeneration : UInt64
  restoredEventSequences : List UInt64
  restoredResourceHandles : List String
  redactedFields : List String
  compactionRestore : Option VmPersistentActorCompactionRestore
  modelSyncStreams : List VmPersistentActorModelSyncRestoreStream

structure VmPersistentActorRestoreExecution where
  sourceAdapterKind : String
  destinationAdapterKind : String
  snapshotGeneration : UInt64
  restoredEventCount : Nat
  replayedEventCount : Nat

inductive VmPersistentActorRestoreError where
  | corruptExportChecksum
  | wrongActorOwner
  | staleSchema
  | incompatibleAdapterForCompactedSnapshot
  | incompatibleAdapterForResourceHandles
  | incompatibleAdapterKind (expected actual : String)
  | missingDurableResourceHandle (handle : String)
  | missingModelSyncContinuity (model : String)
  | reorderedModelSyncStream (expected actual : UInt64)
  | storeRejected (step outcome : String)
  | eventActorChanged (sequence : UInt64)
  | eventSchemaChanged (sequence : UInt64)
  | reorderedRetainedEventSuffix (expected actual : UInt64)
  | reorderedMailboxCheckpoint (expected actual : UInt64)

/-! ## Plans -/

def mailboxCheckpointSequence : ReplValue → Option UInt64
  | .tuple (.atom tag :: .int sequence :: _) =>
    if tag = "mailbox_checkpoint" ∧ 0 ≤ sequence then some sequence.toUInt64 else none
  | _ => none

/-- The checkpoints that carry a sequence count from the expected one. -/
def validateMailboxCheckpointOrder :
    UInt64 → List ReplValue → Except VmPersistentActorRestoreError Unit
  | _, [] => .ok ()
  | expected, checkpoint :: checkpoints =>
    match mailboxCheckpointSequence checkpoint with
    | none => validateMailboxCheckpointOrder expected checkpoints
    | some actual => do
      failIf (actual ≠ expected) (.reorderedMailboxCheckpoint expected actual)
      validateMailboxCheckpointOrder (expected + 1) checkpoints

/-- The events are the snapshot's, in sequence from the expected one, which wraps around. -/
def validateExportSuffix (snapshot : VmPersistentActorSnapshot) :
    UInt64 → List VmPersistentActorEvent → Except VmPersistentActorRestoreError Unit
  | _, [] => .ok ()
  | expected, event :: events => do
    failIf (event.actorId ≠ snapshot.actorId) (.eventActorChanged event.sequence)
    failIf (event.schema ≠ snapshot.schema) (.eventSchemaChanged event.sequence)
    failIf (event.sequence ≠ expected) (.reorderedRetainedEventSuffix expected event.sequence)
    validateExportSuffix snapshot (expected + 1) events

def validateModelSyncOrder :
    UInt64 → List VmModelSyncChange → Except VmPersistentActorRestoreError Unit
  | _, [] => .ok ()
  | expected, change :: changes => do
    failIf (change.sequence ≠ expected) (.reorderedModelSyncStream expected change.sequence)
    validateModelSyncOrder (expected + 1) changes

def validateModelSyncStream (export_ : VmPersistentActorExport)
    (required : VmPersistentActorModelSyncContinuity) :
    Except VmPersistentActorRestoreError VmPersistentActorModelSyncRestoreStream := do
  let changes := export_.modelSyncChanges.filter (·.model = required.model)
  validateModelSyncOrder required.retainedFromSequence changes
  match changes.getLast? with
  | none => throw (.missingModelSyncContinuity required.model)
  | some last =>
    return {
      model := required.model
      retainedFromSequence := required.retainedFromSequence
      retainedToSequence := last.sequence
      changeCount := changes.length }

def compactionRestoreMetadata (export_ : VmPersistentActorExport) :
    Option VmPersistentActorCompactionRestore :=
  if export_.compacted then
    some {
      compactedSnapshotGeneration := export_.snapshot.generation
      compactedThroughSequence := export_.snapshot.lastEventSequence
      retainedSuffixStart := export_.retainedEvents.head?.map (·.sequence)
      retainedSuffixEnd := export_.retainedEvents.getLast?.map (·.sequence) }
  else none

def planPersistentActorRestore (debug : String → String) (export_ : VmPersistentActorExport)
    (target : VmPersistentActorRestoreTarget) :
    Except VmPersistentActorRestoreError VmPersistentActorRestorePlan := do
  failIf (export_.checksum ≠ export_.computeChecksum debug) .corruptExportChecksum
  failIf (export_.snapshot.actorId ≠ target.actorId) .wrongActorOwner
  failIf (export_.snapshot.schema ≠ target.schema) .staleSchema
  failIf (export_.sourceAdapterKind ≠ target.adapterKind ∧ ¬ target.allowCrossAdapterRestore)
    (.incompatibleAdapterKind export_.sourceAdapterKind target.adapterKind)
  failIf (export_.compacted ∧ ¬ target.capabilities.supportsCompactedSnapshotRestore)
    .incompatibleAdapterForCompactedSnapshot
  failIf (export_.snapshot.resourceHandles ≠ [] ∧
      ¬ target.capabilities.supportsResourceHandleRestore)
    .incompatibleAdapterForResourceHandles
  match export_.snapshot.resourceHandles.find? (· ∉ target.availableResourceHandles) with
  | some handle => throw (.missingDurableResourceHandle handle)
  | none =>
    validateMailboxCheckpointOrder 1 export_.snapshot.mailboxCheckpoint
    validateExportSuffix export_.snapshot (export_.snapshot.lastEventSequence + 1)
      export_.retainedEvents
    let modelSyncStreams ←
      target.requiredModelSyncStreams.mapM (validateModelSyncStream export_)
    return {
      snapshotGeneration := export_.snapshot.generation
      restoredEventSequences := export_.retainedEvents.map (·.sequence)
      restoredResourceHandles := export_.snapshot.resourceHandles
      redactedFields := export_.redactedFields
      compactionRestore := compactionRestoreMetadata export_
      modelSyncStreams }

/-! ## Destinations -/

/-- `VmPersistentActorStoreAdapter`, as far as a restore uses it. -/
structure Adapter (S : Type) where
  storeSnapshot : S → VmPersistentActorSnapshot → S × VmPersistentActorStoreOutcome
  appendEvent : S → VmPersistentActorEvent → S × VmPersistentActorStoreOutcome
  replay : S → VmPersistentActorId → VmPersistentActorSchema →
    Except VmPersistentActorStoreOutcome VmPersistentActorReplay

def memoryAdapter : Adapter VmInMemoryPersistentActorStore where
  storeSnapshot := VmInMemoryPersistentActorStore.storeSnapshot
  appendEvent := VmInMemoryPersistentActorStore.appendEvent
  replay := VmInMemoryPersistentActorStore.replay

/-- A store behind a file, and the faults that its writes will meet. -/
structure FaultyStore where
  store : VmFileBackedPersistentActorStore
  faults : List (Option FileFault)

def FaultyStore.write (self : FaultyStore) (record : FileBackedRecord) :
    FaultyStore × VmPersistentActorStoreOutcome :=
  let answer := StoreCall.run self.store ⟨record, self.faults.headD none⟩
  (⟨answer.1, self.faults.tail⟩, answer.2)

def fileAdapter : Adapter FaultyStore where
  storeSnapshot self snapshot := self.write (.snapshot snapshot)
  appendEvent self event := self.write (.event event)
  replay self := self.store.replay

def persistentActorStoreOutcomeKind : VmPersistentActorStoreOutcome → String
  | .snapshotStored _ => "snapshot_stored"
  | .eventAppended _ => "event_appended"
  | .replayed _ => "replayed"
  | .missingSnapshot _ => "missing_snapshot"
  | .staleSnapshot _ _ _ => "stale_snapshot"
  | .staleEvent _ _ _ => "stale_event"
  | .duplicateEvent _ _ => "duplicate_event"
  | .incompatibleSchema _ _ _ => "incompatible_schema"
  | .persistenceFailed _ _ => "persistence_failed"

section Execute

variable {S : Type} (adapter : Adapter S)

/-- The loop over the events. It ends with the first that is neither appended nor replayed. -/
def appendRetained : S → List VmPersistentActorEvent → S × Except VmPersistentActorRestoreError Unit
  | destination, [] => (destination, .ok ())
  | destination, event :: events =>
    match adapter.appendEvent destination event with
    | (destination, .eventAppended _) => appendRetained destination events
    | (destination, .replayed _) => appendRetained destination events
    | (destination, outcome) =>
      (destination,
        .error (.storeRejected "append_event" (persistentActorStoreOutcomeKind outcome)))

def executePersistentActorRestore (debug : String → String) (export_ : VmPersistentActorExport)
    (target : VmPersistentActorRestoreTarget) (destination : S) :
    S × Except VmPersistentActorRestoreError VmPersistentActorRestoreExecution :=
  match planPersistentActorRestore debug export_ target with
  | .error error => (destination, .error error)
  | .ok plan =>
    match adapter.storeSnapshot destination export_.snapshot with
    | (destination, .snapshotStored _) =>
      match appendRetained adapter destination export_.retainedEvents with
      | (destination, .error error) => (destination, .error error)
      | (destination, .ok ()) =>
        match adapter.replay destination target.actorId target.schema with
        | .error outcome =>
          (destination,
            .error (.storeRejected "replay" (persistentActorStoreOutcomeKind outcome)))
        | .ok replay =>
          (destination, .ok {
            sourceAdapterKind := export_.sourceAdapterKind
            destinationAdapterKind := target.adapterKind
            snapshotGeneration := plan.snapshotGeneration
            restoredEventCount := plan.restoredEventSequences.length
            replayedEventCount := replay.events.length })
    | (destination, outcome) =>
      (destination,
        .error (.storeRejected "store_snapshot" (persistentActorStoreOutcomeKind outcome)))

end Execute

/-! ## What a store must do -/

/-- The answers that the loop over the events goes on after. -/
def isAppended : VmPersistentActorStoreOutcome → Bool
  | .eventAppended _ => true
  | .replayed _ => true
  | _ => false

/-- An adapter over a store that it shows: what it answers as written is written. -/
structure Adapter.Writes {S : Type} (adapter : Adapter S)
    (view : S → VmInMemoryPersistentActorStore) (good : S → Prop) : Prop where
  stored : ∀ s snapshot stored, good s →
    (adapter.storeSnapshot s snapshot).2 = .snapshotStored stored →
      (view s).Fresh (.snapshot snapshot) ∧
        view (adapter.storeSnapshot s snapshot).1 = (view s).write (.snapshot snapshot)
  appended : ∀ s event, good s → (view s).Fresh (.event event) →
    isAppended (adapter.appendEvent s event).2 = true →
      view (adapter.appendEvent s event).1 = (view s).write (.event event)
  snapshots : ∀ s event, good s →
    (view (adapter.appendEvent s event).1).snapshots = (view s).snapshots
  goodStored : ∀ s snapshot, good s → good (adapter.storeSnapshot s snapshot).1
  goodAppended : ∀ s event, good s → good (adapter.appendEvent s event).1
  replay : ∀ s, adapter.replay s = (view s).replay

/-- Every event is answered as appended. -/
def Adapter.Appends {S : Type} (adapter : Adapter S) : S → List VmPersistentActorEvent → Prop
  | _, [] => True
  | s, event :: events =>
    isAppended (adapter.appendEvent s event).2 = true ∧
      adapter.Appends (adapter.appendEvent s event).1 events

/-- The events come in sequence behind the snapshot, and behind all events of its actor. -/
def Ready (store : VmInMemoryPersistentActorStore) (snapshot : VmPersistentActorSnapshot)
    (expected : UInt64) (events : List VmPersistentActorEvent) : Prop :=
  validateExportSuffix snapshot expected events = .ok () ∧
    store.snapshots[snapshot.actorId]? = some snapshot ∧
    (events ≠ [] → snapshot.lastEventSequence < expected ∧
      ∀ n event, store.eventAt snapshot.actorId n = some event → n < expected)

section Loop

variable {store : VmInMemoryPersistentActorStore} {snapshot : VmPersistentActorSnapshot}
  {expected : UInt64} {event : VmPersistentActorEvent} {events : List VmPersistentActorEvent}

theorem validateExportSuffix_cons (ok : validateExportSuffix snapshot expected (event :: events) =
      .ok ()) : event.actorId = snapshot.actorId ∧ event.schema = snapshot.schema ∧
      event.sequence = expected ∧ validateExportSuffix snapshot (expected + 1) events = .ok () := by
  rw [validateExportSuffix] at ok
  obtain ⟨actor, ok⟩ := check_bind_ok_iff.mp ok
  obtain ⟨schema, ok⟩ := check_bind_ok_iff.mp ok
  obtain ⟨sequence, ok⟩ := check_bind_ok_iff.mp ok
  rw [failIf_ok_iff, not_not] at actor schema sequence
  exact ⟨actor, schema, sequence, ok⟩

theorem Ready.fresh (ready : Ready store snapshot expected (event :: events)) :
    store.Fresh (.event event) := by
  obtain ⟨ok, found, behind⟩ := ready
  obtain ⟨actor, schema, rfl, -⟩ := validateExportSuffix_cons ok
  obtain ⟨later, last⟩ := behind (cons_ne_nil _ _)
  refine ⟨fun other here => ?_, ?_⟩
  · rw [actor, found] at here
    cases here
    exact ⟨schema.symm, later⟩
  · rw [actor]
    exact (VmInMemoryPersistentActorStore.latestEventSequence_lt_iff event.sequenced).mpr last

/-- A number with one behind it that is not zero is below it. -/
theorem lt_succ_of_ne_zero {n : UInt64} (counted : n + 1 ≠ 0) : n < n + 1 := by
  have small := n.toNat_lt
  rw [UInt64.lt_iff_toNat_lt, UInt64.toNat_add]
  have notZero : (n.toNat + 1) % 2 ^ 64 ≠ 0 := by
    intro zero
    apply counted
    apply UInt64.toNat_inj.mp
    rw [UInt64.toNat_add]
    exact zero
  change n.toNat < (n.toNat + 1) % 2 ^ 64
  omega

/-- Where an event follows, the sequence before it is not the largest. -/
theorem sequence_lt_succ (ok : validateExportSuffix snapshot (expected + 1) events = .ok ())
    (more : events ≠ []) : expected < expected + 1 := by
  apply lt_succ_of_ne_zero
  cases events with
  | nil => exact absurd rfl more
  | cons event events =>
    rw [← (validateExportSuffix_cons ok).2.2.1]
    exact event.sequenced

theorem Ready.write (ready : Ready store snapshot expected (event :: events)) :
    Ready (store.write (.event event)) snapshot (expected + 1) events := by
  obtain ⟨ok, found, behind⟩ := ready
  obtain ⟨actor, schema, rfl, rest⟩ := validateExportSuffix_cons ok
  obtain ⟨later, last⟩ := behind (cons_ne_nil _ _)
  refine ⟨rest, found, fun more => ?_⟩
  have next := sequence_lt_succ rest more
  refine ⟨UInt64.lt_trans later next, fun n held here => ?_⟩
  rcases VmInMemoryPersistentActorStore.eventAt_write here with same | before
  · cases same
    rw [VmInMemoryPersistentActorStore.eventAt_write_event] at here
    split at here
    next key =>
      rw [← key.2]
      exact next
    next => exact UInt64.lt_trans (last n event here) next
  · exact UInt64.lt_trans (last n held before) next

variable {S : Type} {adapter : Adapter S} {view : S → VmInMemoryPersistentActorStore}
  {good : S → Prop}

theorem appendRetained_cons_appended {s : S} (goesOn :
      isAppended (adapter.appendEvent s event).2 = true) :
    appendRetained adapter s (event :: events) =
      appendRetained adapter (adapter.appendEvent s event).1 events := by
  rw [appendRetained]
  revert goesOn
  rcases adapter.appendEvent s event with ⟨next, outcome⟩
  intro goesOn
  cases outcome with
  | eventAppended | replayed => rfl
  | _ => cases goesOn

theorem appendRetained_cons_refused {s : S} (refused :
      ¬ isAppended (adapter.appendEvent s event).2 = true) :
    ∃ error, appendRetained adapter s (event :: events) =
      ((adapter.appendEvent s event).1, .error error) := by
  rw [appendRetained]
  revert refused
  rcases adapter.appendEvent s event with ⟨next, outcome⟩
  intro refused
  cases outcome with
  | eventAppended | replayed => exact absurd rfl refused
  | _ => exact ⟨_, rfl⟩

theorem appendRetained_ok (writes : adapter.Writes view good) {s : S} (isGood : good s)
    (ready : Ready (view s) snapshot expected events) (appends : adapter.Appends s events) :
    ∃ last, appendRetained adapter s events = (last, .ok ()) ∧
      view last = events.foldl (fun store event => store.write (.event event)) (view s) := by
  induction events generalizing s expected with
  | nil => exact ⟨s, rfl, rfl⟩
  | cons event events ih =>
    have written := writes.appended s event isGood ready.fresh appends.1
    have next := ready.write
    rw [← written] at next
    rw [appendRetained_cons_appended appends.1, foldl_cons, ← written]
    exact ih (writes.goodAppended s event isGood) next appends.2

theorem appendRetained_error (writes : adapter.Writes view good) {s : S} (isGood : good s)
    (refused : ¬ adapter.Appends s events) :
    ∃ last error, appendRetained adapter s events = (last, .error error) ∧
      (view last).snapshots = (view s).snapshots := by
  induction events generalizing s with
  | nil => exact absurd trivial refused
  | cons event events ih =>
    have same := writes.snapshots s event isGood
    by_cases first : isAppended (adapter.appendEvent s event).2 = true
    · rw [appendRetained_cons_appended first, ← same]
      exact ih (writes.goodAppended s event isGood) fun rest => refused ⟨first, rest⟩
    · obtain ⟨error, run⟩ := appendRetained_cons_refused first
      exact ⟨_, error, run, same⟩

end Loop

/-! ## What the destination replays -/

section Replays

variable {store : VmInMemoryPersistentActorStore} {snapshot : VmPersistentActorSnapshot}
  {expected n : UInt64} {event : VmPersistentActorEvent} {events : List VmPersistentActorEvent}

/-- An event behind all others of its actor is replayed last. -/
theorem eventsAfter_write
    (last : ∀ m held, store.eventAt event.actorId m = some held → m < event.sequence)
    (later : n + 1 ≤ event.sequence) : (store.write (.event event)).eventsAfter event.actorId n =
      store.eventsAfter event.actorId n ++ [event] := by
  have behind : ∀ m held, (store.events[event.actorId]?.getD ∅)[m]? = some held →
      compare m event.sequence = .lt := by
    intro m held here
    refine Std.compare_eq_lt.mpr (last m held ?_)
    unfold VmInMemoryPersistentActorStore.eventAt
    cases found : store.events[event.actorId]? with
    | none =>
      rw [found, Option.getD_none, ExtTreeMap.getElem?_empty] at here
      cases here
    | some events =>
      rw [found, Option.getD_some] at here
      exact here
  have before : store.eventsAfter event.actorId n =
      ((store.events[event.actorId]?.getD ∅).toList.filter fun entry => n + 1 ≤ entry.1).map
        Prod.snd := by
    unfold VmInMemoryPersistentActorStore.eventsAfter
    cases store.events[event.actorId]? with
    | none =>
      rw [Option.getD_none, ExtTreeMap.toList_eq_nil_iff.mpr rfl]
      rfl
    | some events => rfl
  rw [before]
  unfold VmInMemoryPersistentActorStore.eventsAfter VmInMemoryPersistentActorStore.write
  dsimp only
  rw [getElem?_insert_self_eq]
  dsimp only
  have kept : [(event.sequence, event)].filter (fun entry => decide (n + 1 ≤ entry.1)) =
      [(event.sequence, event)] := by
    simp [later]
  rw [toList_insert_last event behind, filter_append, map_append, kept]
  rfl

theorem eventsAfter_foldl (ready : Ready store snapshot expected events)
    (behind : events ≠ [] → n + 1 ≤ expected) :
    (events.foldl (fun store event => store.write (.event event)) store).eventsAfter
        snapshot.actorId n = store.eventsAfter snapshot.actorId n ++ events := by
  induction events generalizing store expected with
  | nil => exact (append_nil _).symm
  | cons event events ih =>
    have next := ready.write
    obtain ⟨ok, -, later⟩ := ready
    obtain ⟨actor, -, rfl, rest⟩ := validateExportSuffix_cons ok
    have last : ∀ m held, store.eventAt event.actorId m = some held → m < event.sequence := by
      rw [actor]
      exact (later (cons_ne_nil _ _)).2
    have written := eventsAfter_write last (behind (cons_ne_nil _ _))
    rw [actor] at written
    rw [foldl_cons, ih next ?_, written, append_assoc, singleton_append]
    intro more
    have later := UInt64.le_of_lt (sequence_lt_succ rest more)
    exact UInt64.le_trans (behind (cons_ne_nil _ _)) later

theorem snapshots_foldl (events : List VmPersistentActorEvent)
    (store : VmInMemoryPersistentActorStore) :
    (events.foldl (fun store event => store.write (.event event)) store).snapshots =
      store.snapshots := by
  induction events generalizing store with
  | nil => rfl
  | cons event events ih => exact ih (store.write (.event event))

/-- Nothing older is replayed, but at the largest sequence, after which there is zero. -/
theorem eventsAfter_eq_nil_iff (fresh : store.Fresh (.snapshot snapshot)) :
    store.eventsAfter snapshot.actorId snapshot.lastEventSequence = [] ↔
      (snapshot.lastEventSequence.toNat = u64Max →
        ∀ n, store.eventAt snapshot.actorId n = none) := by
  unfold VmInMemoryPersistentActorStore.eventsAfter
  have older : ∀ {m held}, store.eventAt snapshot.actorId m = some held →
      m ≤ snapshot.lastEventSequence := VmInMemoryPersistentActorStore.eventAt_le_of_fresh fresh
  unfold VmInMemoryPersistentActorStore.eventAt at older ⊢
  cases found : store.events[snapshot.actorId]? with
  | none => exact iff_of_true rfl fun _ _ => rfl
  | some events =>
    rw [found] at older
    dsimp only [Option.bind_some] at older ⊢
    rw [map_eq_nil_iff, filter_eq_nil_iff]
    constructor
    · intro skipped largest n
      cases here : events[n]? with
      | none => rfl
      | some held =>
        have wraps : snapshot.lastEventSequence + 1 = 0 := by
          apply UInt64.toNat_inj.mp
          rw [UInt64.toNat_add, largest]
          rfl
        refine absurd ?_ (skipped _ (ExtTreeMap.mem_toList_iff_getElem?_eq_some.mpr here))
        rw [wraps]
        exact decide_eq_true UInt64.zero_le
    · intro vacant entry mem reached
      have here := ExtTreeMap.mem_toList_iff_getElem?_eq_some.mp mem
      by_cases largest : snapshot.lastEventSequence.toNat = u64Max
      · rw [vacant largest] at here
        cases here
      · have later := (VmFileBackedPersistentActorStore.succ_le_iff largest).mp
          (of_decide_eq_true reached)
        exact absurd (older here) (UInt64.not_le.mpr later)

/-- Behind a snapshot that is written, its suffix may follow. -/
theorem ready_write (fresh : store.Fresh (.snapshot snapshot))
    (ok : validateExportSuffix snapshot (snapshot.lastEventSequence + 1) events = .ok ()) :
    Ready (store.write (.snapshot snapshot)) snapshot (snapshot.lastEventSequence + 1) events := by
  refine ⟨ok, ?_, fun more => ⟨sequence_lt_succ ok more, fun n event here => ?_⟩⟩
  · rw [VmInMemoryPersistentActorStore.snapshots_write_snapshot, if_pos rfl]
  · have old := VmInMemoryPersistentActorStore.eventAt_le_of_fresh fresh here
    exact UInt64.lt_of_le_of_lt old (sequence_lt_succ ok more)

/-- The store replays the snapshot and its suffix, behind what it has of older events. -/
theorem replay_foldl (ready : Ready (store.write (.snapshot snapshot)) snapshot
      (snapshot.lastEventSequence + 1) events) :
    (events.foldl (fun store event => store.write (.event event))
        (store.write (.snapshot snapshot))).replay snapshot.actorId snapshot.schema =
      .ok ⟨snapshot, store.eventsAfter snapshot.actorId snapshot.lastEventSequence ++ events⟩ := by
  have found : (events.foldl (fun store event => store.write (.event event))
      (store.write (.snapshot snapshot))).snapshots[snapshot.actorId]? = some snapshot := by
    rw [snapshots_foldl]
    exact ready.2.1
  rw [VmFileBackedPersistentActorStore.replay_of_snapshot found,
    eventsAfter_foldl ready fun _ => UInt64.le_refl _]
  rfl

end Replays

/-! ## All or nothing -/

/-- The store has the same of the actor. -/
def SameActor (a : VmPersistentActorId) (before after : VmInMemoryPersistentActorStore) : Prop :=
  after.snapshots[a]? = before.snapshots[a]? ∧ ∀ n, after.eventAt a n = before.eventAt a n

section Execution

variable {S : Type} (adapter : Adapter S) (view : S → VmInMemoryPersistentActorStore)
  (debug : String → String) (export_ : VmPersistentActorExport)
  (target : VmPersistentActorRestoreTarget) (destination : S)

/-- The restore fails and the destination has of the actor what it had, or it succeeds and the
destination replays the export. -/
def AllOrNothing : Prop :=
  (∃ error, (executePersistentActorRestore adapter debug export_ target destination).2 =
      .error error ∧
    SameActor export_.snapshot.actorId (view destination)
      (view (executePersistentActorRestore adapter debug export_ target destination).1)) ∨
  ∃ execution, (executePersistentActorRestore adapter debug export_ target destination).2 =
      .ok execution ∧
    adapter.replay (executePersistentActorRestore adapter debug export_ target destination).1
      export_.snapshot.actorId export_.snapshot.schema =
        .ok ⟨export_.snapshot, export_.retainedEvents⟩

/-- The preflight accepts the export. -/
def Planned : Prop := ∃ plan, planPersistentActorRestore debug export_ target = .ok plan

/-- At the largest sequence the actor has no events, which a replay would begin with. -/
def NoWrap (store : VmInMemoryPersistentActorStore) : Prop :=
  export_.snapshot.lastEventSequence.toNat = u64Max →
    ∀ n, store.eventAt export_.snapshot.actorId n = none

variable {adapter view debug export_ target destination} {good : S → Prop}

theorem Planned.checks (planned : Planned debug export_ target) :
    export_.snapshot.actorId = target.actorId ∧ export_.snapshot.schema = target.schema ∧
      validateExportSuffix export_.snapshot (export_.snapshot.lastEventSequence + 1)
        export_.retainedEvents = .ok () := by
  obtain ⟨plan, planned⟩ := planned
  unfold planPersistentActorRestore at planned
  obtain ⟨-, planned⟩ := check_bind_ok_iff.mp planned
  obtain ⟨actor, planned⟩ := check_bind_ok_iff.mp planned
  obtain ⟨schema, planned⟩ := check_bind_ok_iff.mp planned
  obtain ⟨-, planned⟩ := check_bind_ok_iff.mp planned
  obtain ⟨-, planned⟩ := check_bind_ok_iff.mp planned
  obtain ⟨-, planned⟩ := check_bind_ok_iff.mp planned
  rw [failIf_ok_iff, not_not] at actor schema
  split at planned
  · cases planned
  obtain ⟨-, planned⟩ := check_bind_ok_iff.mp planned
  obtain ⟨suffix, -⟩ := check_bind_ok_iff.mp planned
  exact ⟨actor, schema, suffix⟩

/-- An export that is not planned is refused at once. -/
theorem allOrNothing_of_unplanned (unplanned : ¬ Planned debug export_ target) :
    AllOrNothing adapter view debug export_ target destination := by
  left
  unfold executePersistentActorRestore
  cases answer : planPersistentActorRestore debug export_ target with
  | error error => exact ⟨error, rfl, rfl, fun _ => rfl⟩
  | ok plan => exact absurd ⟨plan, answer⟩ unplanned

/-- A snapshot that is refused ends the restore. -/
theorem allOrNothing_of_refused (planned : Planned debug export_ target)
    (refused : ∀ stored, (adapter.storeSnapshot destination export_.snapshot).2 ≠
      .snapshotStored stored) : AllOrNothing adapter view debug export_ target destination ↔
      SameActor export_.snapshot.actorId (view destination)
        (view (adapter.storeSnapshot destination export_.snapshot).1) := by
  obtain ⟨plan, planned⟩ := planned
  unfold AllOrNothing executePersistentActorRestore
  rw [planned]
  revert refused
  rcases adapter.storeSnapshot destination export_.snapshot with ⟨next, outcome⟩
  intro refused
  cases outcome with
  | snapshotStored stored => exact absurd rfl (refused stored)
  | _ => simp

/-- A snapshot that is stored must be followed by all events, and by nothing else. -/
theorem allOrNothing_of_stored (writes : adapter.Writes view good) (isGood : good destination)
    (planned : Planned debug export_ target) {stored : VmPersistentActorSnapshot}
    (isStored : (adapter.storeSnapshot destination export_.snapshot).2 = .snapshotStored stored) :
    AllOrNothing adapter view debug export_ target destination ↔
      adapter.Appends (adapter.storeSnapshot destination export_.snapshot).1
          export_.retainedEvents ∧ NoWrap export_ (view destination) := by
  obtain ⟨actor, schema, suffix⟩ := planned.checks
  obtain ⟨fresh, written⟩ := writes.stored _ _ _ isGood isStored
  have ready := ready_write fresh suffix
  rw [← written] at ready
  have isGood' := writes.goodStored destination export_.snapshot isGood
  obtain ⟨plan, planned⟩ := planned
  unfold AllOrNothing executePersistentActorRestore
  rw [planned]
  revert isStored written ready isGood'
  rcases adapter.storeSnapshot destination export_.snapshot with ⟨next, outcome⟩
  intro isStored written ready isGood'
  dsimp only at isStored
  subst isStored
  dsimp only
  by_cases appends : adapter.Appends next export_.retainedEvents
  · obtain ⟨last, run, final⟩ := appendRetained_ok writes isGood' ready appends
    have replays : adapter.replay last export_.snapshot.actorId export_.snapshot.schema =
        .ok ⟨export_.snapshot, (view destination).eventsAfter export_.snapshot.actorId
          export_.snapshot.lastEventSequence ++ export_.retainedEvents⟩ := by
      rw [writes.replay, final, written]
      exact replay_foldl (written ▸ ready)
    rw [run]
    dsimp only
    rw [← actor, ← schema, replays]
    dsimp only
    rw [replays, NoWrap, ← eventsAfter_eq_nil_iff fresh, and_iff_right appends]
    constructor
    · rintro (⟨_, failed, -⟩ | ⟨_, -, same⟩)
      · cases failed
      · have events := congrArg VmPersistentActorReplay.events (Except.ok.inj same)
        exact append_left_eq_self.mp events
    · intro none
      exact .inr ⟨_, rfl, by rw [none, nil_append]⟩
  · obtain ⟨last, error, run, same⟩ := appendRetained_error writes isGood' appends
    rw [run]
    refine iff_of_false ?_ fun both => appends both.1
    rintro (⟨_, -, sameSnapshot, -⟩ | ⟨_, ok, -⟩)
    · dsimp only at sameSnapshot
      rw [same, written, VmInMemoryPersistentActorStore.snapshots_write_snapshot, if_pos rfl]
        at sameSnapshot
      exact absurd (fresh.1 _ sameSnapshot.symm).2 (UInt64.lt_irrefl _)
    · cases ok

end Execution

/-! ## The two stores -/

open VmFileBackedPersistentActorStore (Accepts run_accepts run_of_refused freshStore counter
  counterSchema counterEvent counterSnapshot wellFormed_freshStore wellFormed_run
  wellFormed_of_open)

theorem isAppended_of_kept_none {outcome : VmPersistentActorStoreOutcome}
    (kept : outcome.kept = none) : ¬ isAppended outcome = true := by
  cases outcome <;> first | exact Bool.false_ne_true | cases kept

theorem appendEvent_snapshots (store : VmInMemoryPersistentActorStore)
    (event : VmPersistentActorEvent) : (store.appendEvent event).1.snapshots = store.snapshots := by
  by_cases fresh : store.Fresh (.event event)
  · rw [VmInMemoryPersistentActorStore.appendEvent_of_fresh fresh]
    rfl
  · obtain ⟨_, run, -⟩ := VmInMemoryPersistentActorStore.appendEvent_of_stale fresh
    rw [run]

theorem memory_writes : memoryAdapter.Writes id fun _ => True where
  stored s snapshot stored _ isStored := by
    by_cases fresh : s.Fresh (.snapshot snapshot)
    · refine ⟨fresh, ?_⟩
      show (s.storeSnapshot snapshot).1 = s.write (.snapshot snapshot)
      rw [VmInMemoryPersistentActorStore.storeSnapshot_of_fresh fresh]
    · obtain ⟨outcome, run, kept⟩ := VmInMemoryPersistentActorStore.storeSnapshot_of_stale fresh
      change (s.storeSnapshot snapshot).2 = _ at isStored
      rw [run] at isStored
      cases isStored
      cases kept
  appended s event _ fresh _ := by
    exact congrArg Prod.fst (VmInMemoryPersistentActorStore.appendEvent_of_fresh fresh)
  snapshots s event _ := appendEvent_snapshots s event
  goodStored _ _ _ := trivial
  goodAppended _ _ _ := trivial
  replay _ := rfl

theorem memory_appends {store : VmInMemoryPersistentActorStore}
    {snapshot : VmPersistentActorSnapshot} {expected : UInt64}
    {events : List VmPersistentActorEvent} (ready : Ready store snapshot expected events) :
    memoryAdapter.Appends store events := by
  induction events generalizing store expected with
  | nil => trivial
  | cons event events ih =>
    have run : memoryAdapter.appendEvent store event =
        (store.write (.event event), .eventAppended event) :=
      VmInMemoryPersistentActorStore.appendEvent_of_fresh ready.fresh
    rw [Adapter.Appends, run]
    exact ⟨rfl, ih ready.write⟩

/-- The store of a faulty store. -/
def FaultyStore.view (self : FaultyStore) : VmInMemoryPersistentActorStore := self.store.inner

variable {store : VmFileBackedPersistentActorStore}

theorem run_event_snapshots
    (wf : store.inner.WellFormed) (event : VmPersistentActorEvent) (disk : Option FileFault) :
    (StoreCall.run store ⟨.event event, disk⟩).1.inner.snapshots = store.inner.snapshots := by
  by_cases accepts : Accepts store ⟨.event event, disk⟩
  · rw [(run_accepts wf accepts).1]
    rfl
  · rw [(run_of_refused accepts).1]

/-- An event that is new is not answered as appended where it has no line. -/
theorem not_isAppended_of_refused {event : VmPersistentActorEvent} {disk : Option FileFault}
    (fresh : store.inner.Fresh (.event event)) (refused : ¬ Accepts store ⟨.event event, disk⟩) :
    ¬ isAppended (StoreCall.run store ⟨.event event, disk⟩).2 = true := by
  rcases (run_of_refused refused).2 with kept | ⟨held, same, -, there⟩
  · exact isAppended_of_kept_none kept
  cases same
  have before := (VmInMemoryPersistentActorStore.latestEventSequence_lt_iff event.sequenced).mp
    fresh.2 _ _ there
  exact absurd before (UInt64.lt_irrefl _)

theorem file_writes : fileAdapter.Writes FaultyStore.view fun s => s.view.WellFormed where
  stored s snapshot stored wf isStored := by
    change (StoreCall.run s.store ⟨.snapshot snapshot, s.faults.headD none⟩).2 = _ at isStored
    by_cases accepts : Accepts s.store ⟨.snapshot snapshot, s.faults.headD none⟩
    · exact ⟨accepts.2, (run_accepts wf accepts).1⟩
    rcases (run_of_refused accepts).2 with kept | ⟨event, same, -⟩
    · rw [isStored] at kept
      cases kept
    · cases same
  appended s event wf fresh goesOn := by
    change isAppended (StoreCall.run s.store ⟨.event event, s.faults.headD none⟩).2 = true at goesOn
    by_cases accepts : Accepts s.store ⟨.event event, s.faults.headD none⟩
    · exact (run_accepts wf accepts).1
    · exact absurd goesOn (not_isAppended_of_refused fresh accepts)
  snapshots s event wf := run_event_snapshots wf event _
  goodStored s snapshot wf := wellFormed_run wf _
  goodAppended s event wf := wellFormed_run wf _
  replay _ := rfl

/-- A new event is answered as appended exactly if it has a line and the disk takes it. -/
theorem isAppended_iff (wf : store.inner.WellFormed)
    {event : VmPersistentActorEvent} {disk : Option FileFault}
    (fresh : store.inner.Fresh (.event event)) :
    isAppended (StoreCall.run store ⟨.event event, disk⟩).2 = true ↔
      disk = none ∧ Encodable (.event event) := by
  by_cases encodable : Encodable (.event event)
  · obtain ⟨-, ⟨persists, answer, -⟩ | ⟨fails, _, _, answer⟩⟩ :=
      run_accepts wf (show Accepts store ⟨.event event, disk⟩ from ⟨encodable, fresh⟩)
    · rw [answer]
      exact iff_of_true rfl ⟨persists, encodable⟩
    · rw [answer]
      exact iff_of_false Bool.false_ne_true fun both => fails both.1
  · refine iff_of_false ?_ fun both => encodable both.2
    exact not_isAppended_of_refused fresh fun accepts => encodable accepts.1

theorem file_appends_iff {s : FaultyStore} (wf : s.view.WellFormed)
    {snapshot : VmPersistentActorSnapshot} {expected : UInt64}
    {events : List VmPersistentActorEvent} (ready : Ready s.view snapshot expected events) :
    fileAdapter.Appends s events ↔ (∀ fault ∈ s.faults.take events.length, fault = none) ∧
        ∀ event ∈ events, Encodable (.event event) := by
  induction events generalizing s expected with
  | nil => simp [Adapter.Appends]
  | cons event events ih =>
    have fresh : s.store.inner.Fresh (.event event) := ready.fresh
    have first := @isAppended_iff s.store wf event (s.faults.headD none) fresh
    have takes : (∀ fault ∈ s.faults.take (events.length + 1), fault = none) ↔
        s.faults.headD none = none ∧
          ∀ fault ∈ s.faults.tail.take events.length, fault = none := by
      cases s.faults with
      | nil | cons => simp
    rw [Adapter.Appends, length_cons, takes, forall_mem_cons]
    constructor
    · rintro ⟨goesOn, rest⟩
      have written := file_writes.appended s event wf fresh goesOn
      have next := ready.write
      rw [← written] at next
      obtain ⟨disk, encodable⟩ := first.mp goesOn
      obtain ⟨others, each⟩ := (ih (file_writes.goodAppended s event wf) next).mp rest
      exact ⟨⟨disk, others⟩, encodable, each⟩
    · rintro ⟨⟨disk, others⟩, encodable, each⟩
      have goesOn := first.mpr ⟨disk, encodable⟩
      have written := file_writes.appended s event wf fresh goesOn
      have next := ready.write
      rw [← written] at next
      exact ⟨goesOn, (ih (file_writes.goodAppended s event wf) next).mpr ⟨others, each⟩⟩

section Settled

variable {debug : String → String} {export_ : VmPersistentActorExport}
  {target : VmPersistentActorRestoreTarget}

theorem memory_all_or_nothing_iff (store : VmInMemoryPersistentActorStore) :
    AllOrNothing memoryAdapter id debug export_ target store ↔
      (Planned debug export_ target → store.Fresh (.snapshot export_.snapshot) →
        NoWrap export_ store) := by
  by_cases planned : Planned debug export_ target
  · by_cases fresh : store.Fresh (.snapshot export_.snapshot)
    · have run : memoryAdapter.storeSnapshot store export_.snapshot =
          (store.write (.snapshot export_.snapshot), .snapshotStored export_.snapshot) :=
        VmInMemoryPersistentActorStore.storeSnapshot_of_fresh fresh
      have stored := congrArg Prod.snd run
      rw [allOrNothing_of_stored memory_writes trivial planned stored, run]
      have appends := memory_appends (ready_write fresh planned.checks.2.2)
      exact (and_iff_right appends).trans ⟨fun vacant _ _ => vacant, fun all => all planned fresh⟩
    · refine iff_of_true ?_ fun _ accepted => absurd accepted fresh
      obtain ⟨outcome, run, kept⟩ := VmInMemoryPersistentActorStore.storeSnapshot_of_stale fresh
      have refused : memoryAdapter.storeSnapshot store export_.snapshot = (store, outcome) := run
      have notStored : ∀ stored, outcome ≠ .snapshotStored stored := by
        rintro stored rfl
        cases kept
      rw [allOrNothing_of_refused planned (by rw [refused]; exact notStored), refused]
      exact ⟨rfl, fun _ => rfl⟩
  · exact iff_of_true (allOrNothing_of_unplanned planned) fun isPlanned => absurd isPlanned planned

theorem file_all_or_nothing_iff {s : FaultyStore} (wf : s.view.WellFormed) :
    AllOrNothing fileAdapter FaultyStore.view debug export_ target s ↔
      (Planned debug export_ target → Accepts s.store ⟨.snapshot export_.snapshot, none⟩ →
        ((∀ fault ∈ s.faults.take (export_.retainedEvents.length + 1), fault = none) ∧
          ∀ event ∈ export_.retainedEvents, Encodable (.event event)) ∧ NoWrap export_ s.view) := by
  by_cases planned : Planned debug export_ target
  · by_cases accepts : Accepts s.store ⟨.snapshot export_.snapshot, none⟩
    · have accepts' : Accepts s.store ⟨.snapshot export_.snapshot, s.faults.headD none⟩ := accepts
      have takes : (∀ fault ∈ s.faults.take (export_.retainedEvents.length + 1), fault = none) ↔
          s.faults.headD none = none ∧
            ∀ fault ∈ s.faults.tail.take export_.retainedEvents.length, fault = none := by
        cases s.faults with
        | nil | cons => simp
      obtain ⟨inner, ⟨persists, answer, -⟩ | ⟨fails, actorId, reason, answer⟩⟩ :=
        run_accepts wf accepts'
      · have stored : (fileAdapter.storeSnapshot s export_.snapshot).2 =
            .snapshotStored export_.snapshot := answer
        have ready := ready_write accepts.2 planned.checks.2.2
        rw [← inner] at ready
        have appends := @file_appends_iff (fileAdapter.storeSnapshot s export_.snapshot).1
          (file_writes.goodStored s export_.snapshot wf) _ _ _ ready
        rw [allOrNothing_of_stored file_writes wf planned stored, appends, takes,
          and_iff_right persists]
        exact ⟨fun all _ _ => all, fun all => all planned accepts⟩
      · have refused : ∀ stored, (fileAdapter.storeSnapshot s export_.snapshot).2 ≠
            .snapshotStored stored := by
          intro stored same
          exact absurd (answer.symm.trans same) (by simp)
        refine iff_of_false ?_ fun all => fails (takes.mp (all planned accepts).1.1).1
        rw [allOrNothing_of_refused planned refused]
        rintro ⟨same, -⟩
        change (StoreCall.run s.store ⟨.snapshot export_.snapshot,
          s.faults.headD none⟩).1.inner.snapshots[export_.snapshot.actorId]? = _ at same
        rw [inner, VmInMemoryPersistentActorStore.snapshots_write_snapshot, if_pos rfl] at same
        exact absurd (accepts.2.1 _ same.symm).2 (UInt64.lt_irrefl _)
    · refine iff_of_true ?_ fun _ accepted => absurd accepted accepts
      have accepts' : ¬ Accepts s.store ⟨.snapshot export_.snapshot, s.faults.headD none⟩ := accepts
      have refused : ∀ stored, (fileAdapter.storeSnapshot s export_.snapshot).2 ≠
          .snapshotStored stored := by
        intro stored same
        change (StoreCall.run s.store ⟨.snapshot export_.snapshot, s.faults.headD none⟩).2 = _
          at same
        rcases (run_of_refused accepts').2 with kept | ⟨event, other, -⟩
        · rw [same] at kept
          cases kept
        · cases other
      rw [allOrNothing_of_refused planned refused]
      have unchanged : (fileAdapter.storeSnapshot s export_.snapshot).1.store = s.store :=
        (run_of_refused accepts').1
      unfold FaultyStore.view
      rw [unchanged]
      exact ⟨rfl, fun _ => rfl⟩
  · exact iff_of_true (allOrNothing_of_unplanned planned) fun isPlanned => absurd isPlanned planned

theorem wellFormed_after {store : VmFileBackedPersistentActorStore} (wf : store.inner.WellFormed)
    (calls : List StoreCall) : (Lib.replay StoreCall.run store calls).1.inner.WellFormed :=
  Lib.replay_state StoreCall.run (·.inner.WellFormed) (fun _ call wf => wellFormed_run wf call)
    store calls wf

/-- Of every export and destination: in memory a restore is all or nothing except at the largest
sequence; behind a file it is, exactly if once the snapshot is accepted no write of the restore
meets a fault of the disk and every event has a line. -/
theorem restore_all_or_nothing_iff (debug : String → String) (export_ : VmPersistentActorExport)
    (target : VmPersistentActorRestoreTarget) :
    (∀ store, AllOrNothing memoryAdapter id debug export_ target store ↔
      (Planned debug export_ target → store.Fresh (.snapshot export_.snapshot) →
        NoWrap export_ store)) ∧
    ∀ file opened calls faults, VmFileBackedPersistentActorStore.openFileBacked file = .ok opened →
      (AllOrNothing fileAdapter FaultyStore.view debug export_ target
          ⟨(Lib.replay StoreCall.run opened calls).1, faults⟩ ↔ (Planned debug export_ target →
          Accepts (Lib.replay StoreCall.run opened calls).1 ⟨.snapshot export_.snapshot, none⟩ →
          ((∀ fault ∈ faults.take (export_.retainedEvents.length + 1), fault = none) ∧
            ∀ event ∈ export_.retainedEvents, Encodable (.event event)) ∧
          NoWrap export_ (Lib.replay StoreCall.run opened calls).1.inner)) :=
  ⟨memory_all_or_nothing_iff, fun _ _ calls _ begun =>
    file_all_or_nothing_iff (wellFormed_after (wellFormed_of_open begun) calls)⟩

end Settled

/-! ## An event that the disk does not take -/

/-- A checkpoint, and the one event after it. -/
def exampleSnapshot : VmPersistentActorSnapshot := { counterSnapshot with lastEventSequence := 0 }

def exampleDebug (text : String) : String := "\"" ++ text ++ "\""

def exampleExport : VmPersistentActorExport :=
  let unsummed : VmPersistentActorExport := {
    snapshot := exampleSnapshot
    retainedEvents := [counterEvent]
    modelSyncChanges := []
    redactedFields := []
    compacted := false
    sourceAdapterKind := "file_backed"
    checksum := "" }
  { unsummed with checksum := unsummed.computeChecksum exampleDebug }

def exampleTarget : VmPersistentActorRestoreTarget where
  actorId := counter
  schema := counterSchema
  availableResourceHandles := []
  capabilities := ⟨true, true⟩
  adapterKind := "file_backed"
  allowCrossAdapterRestore := false
  requiredModelSyncStreams := []

/-- No file yet, and a disk that is full after the first write. -/
def fullDisk : FaultyStore := ⟨freshStore, [none, some ⟨.write, "no space left on device"⟩]⟩

theorem exampleExport_planned : Planned exampleDebug exampleExport exampleTarget := by
  have summed : exampleExport.checksum = exampleExport.computeChecksum exampleDebug := rfl
  unfold Planned planPersistentActorRestore
  rw [failIf, if_neg (not_not.mpr summed)]
  exact ⟨_, rfl⟩

theorem accepts_exampleSnapshot : Accepts freshStore ⟨.snapshot exampleSnapshot, none⟩ := by
  refine ⟨⟨_, rfl⟩, fun current found => ?_, ?_⟩
  · have empty : freshStore.inner.snapshots[counter]? = none := ExtTreeMap.getElem?_empty
    exact absurd (empty.symm.trans found) (by simp)
  · change freshStore.inner.latestEventSequence counter ≤ 0
    rcases freshStore.inner.latestEventSequence_eq counter with zero | ⟨event, here⟩
    · rw [zero]
      exact UInt64.le_refl _
    · have vacant := VmInMemoryPersistentActorStore.eventAt_new counter
        (freshStore.inner.latestEventSequence counter)
      exact absurd (vacant.symm.trans here) (by simp)

/-- The restore fails at the event, and its snapshot stays. -/
theorem restore_keeps_snapshot :
    VmFileBackedPersistentActorStore.openFileBacked .missing = .ok fullDisk.store ∧
      ¬ AllOrNothing fileAdapter FaultyStore.view exampleDebug exampleExport exampleTarget
        fullDisk := by
  refine ⟨rfl, fun all => ?_⟩
  have wf : fullDisk.view.WellFormed := wellFormed_freshStore
  obtain ⟨⟨taken, -⟩, -⟩ :=
    (file_all_or_nothing_iff wf).mp all exampleExport_planned accepts_exampleSnapshot
  have full := taken (some ⟨.write, "no space left on device"⟩) (by decide)
  cases full

/-- On such a disk, what the restore of the example depends on. -/
theorem restore_all_or_nothing_iff_full_disk :
    AllOrNothing fileAdapter FaultyStore.view exampleDebug exampleExport exampleTarget fullDisk ↔
      (Planned exampleDebug exampleExport exampleTarget →
        Accepts freshStore ⟨.snapshot exampleExport.snapshot, none⟩ →
        ((∀ fault ∈ fullDisk.faults.take 2, fault = none) ∧
          ∀ event ∈ exampleExport.retainedEvents, Encodable (.event event)) ∧
        NoWrap exampleExport freshStore.inner) :=
  (restore_all_or_nothing_iff exampleDebug exampleExport exampleTarget).2 .missing freshStore []
    fullDisk.faults (show VmFileBackedPersistentActorStore.openFileBacked .missing = _ from rfl)

end Terlan.PersistentActorRestore
