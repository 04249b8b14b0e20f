/-
  Persistent actor stores. The in-memory store keeps one snapshot an actor and its events by
  sequence, and refuses what is stale. The file-backed store keeps the same and writes the
  whole store to its file after each accepted write: first every snapshot, then every event.
  Opening a file puts its records through the same guarded writes.
-/
import Terlan.Lib.Replay
import Terlan.PersistentActorStore.Record

namespace Terlan.PersistentActorStore

open Terlan.Lib Terlan.TermFormat
open Std (ExtTreeMap)

/-! ## Results -/

/-- The steps of a write to the file; a committed file stays when only the directory fails. -/
inductive FileStep where
  | createDirectory
  | write
  | sync
  | commit
  | syncDirectory
deriving DecidableEq

structure FileFault where
  step : FileStep
  error : String
deriving DecidableEq

inductive PersistFault where
  | record (fault : RecordFault)
  | file (fault : FileFault)

inductive VmPersistentActorStoreOutcome where
  | snapshotStored (snapshot : VmPersistentActorSnapshot)
  | eventAppended (event : VmPersistentActorEvent)
  | replayed (event : VmPersistentActorEvent)
  | missingSnapshot (actorId : VmPersistentActorId)
  | staleSnapshot (actorId : VmPersistentActorId) (currentGeneration incomingGeneration : UInt64)
  | staleEvent (actorId : VmPersistentActorId) (currentSequence incomingSequence : UInt64)
  | duplicateEvent (actorId : VmPersistentActorId) (sequence : UInt64)
  | incompatibleSchema (actorId : VmPersistentActorId)
      (expected actual : VmPersistentActorSchema)
  | persistenceFailed (actorId : VmPersistentActorId) (reason : PersistFault)

/-- The record that an answer says is kept. -/
def VmPersistentActorStoreOutcome.kept : VmPersistentActorStoreOutcome → Option FileBackedRecord
  | .snapshotStored snapshot => some (.snapshot snapshot)
  | .eventAppended event => some (.event event)
  | .replayed event => some (.event event)
  | _ => none

/-- The answer to a write that is done. -/
def VmPersistentActorStoreOutcome.done : FileBackedRecord → VmPersistentActorStoreOutcome
  | .snapshot snapshot => .snapshotStored snapshot
  | .event event => .eventAppended event

structure VmPersistentActorReplay where
  snapshot : VmPersistentActorSnapshot
  events : List VmPersistentActorEvent

/-! ## The store in memory -/

structure VmInMemoryPersistentActorStore where
  snapshots : ExtTreeMap VmPersistentActorId VmPersistentActorSnapshot
  events : ExtTreeMap VmPersistentActorId (ExtTreeMap UInt64 VmPersistentActorEvent)

namespace VmInMemoryPersistentActorStore

def new : VmInMemoryPersistentActorStore := ⟨∅, ∅⟩

def latestEventSequence (store : VmInMemoryPersistentActorStore) (actorId : VmPersistentActorId) :
    UInt64 :=
  (store.events[actorId]?.bind (·.maxKey?)).getD 0

def storeSnapshot (store : VmInMemoryPersistentActorStore) (snapshot : VmPersistentActorSnapshot) :
    VmInMemoryPersistentActorStore × VmPersistentActorStoreOutcome :=
  let refusal : Option VmPersistentActorStoreOutcome :=
    match store.snapshots[snapshot.actorId]? with
    | none => none
    | some current =>
      if current.schema ≠ snapshot.schema then
        some (.incompatibleSchema snapshot.actorId current.schema snapshot.schema)
      else if snapshot.generation ≤ current.generation then
        some (.staleSnapshot snapshot.actorId current.generation snapshot.generation)
      else none
  match refusal with
  | some outcome => (store, outcome)
  | none =>
    let latestEventSequence := store.latestEventSequence snapshot.actorId
    if snapshot.lastEventSequence < latestEventSequence then
      (store,
        .staleEvent snapshot.actorId latestEventSequence snapshot.lastEventSequence)
    else
      ({ store with snapshots := store.snapshots.insert snapshot.actorId snapshot },
        .snapshotStored snapshot)

def appendEvent (store : VmInMemoryPersistentActorStore) (event : VmPersistentActorEvent) :
    VmInMemoryPersistentActorStore × VmPersistentActorStoreOutcome :=
  let refusal : Option VmPersistentActorStoreOutcome :=
    match store.snapshots[event.actorId]? with
    | none => none
    | some snapshot =>
      if snapshot.schema ≠ event.schema then
        some (.incompatibleSchema event.actorId snapshot.schema event.schema)
      else if event.sequence ≤ snapshot.lastEventSequence then
        some (.staleEvent event.actorId snapshot.lastEventSequence event.sequence)
      else none
  match refusal with
  | some outcome => (store, outcome)
  | none =>
    -- `entry(..).or_default()` leaves an entry whatever follows
    let events := store.events[event.actorId]?.getD ∅
    let store := { store with events := store.events.insert event.actorId events }
    match events[event.sequence]? with
    | some existing =>
      if existing = event then (store, .replayed existing)
      else (store, .duplicateEvent event.actorId event.sequence)
    | none =>
      let latestSequence := events.maxKey?.getD 0
      if event.sequence ≤ latestSequence then
        (store, .staleEvent event.actorId latestSequence event.sequence)
      else
        ({ store with
            events := store.events.insert event.actorId (events.insert event.sequence event) },
          .eventAppended event)

def loadSnapshot (store : VmInMemoryPersistentActorStore) (actorId : VmPersistentActorId) :
    Option VmPersistentActorSnapshot :=
  store.snapshots[actorId]?

/-- The range starts at the next number, which wraps around after the largest one. -/
def eventsAfter (store : VmInMemoryPersistentActorStore) (actorId : VmPersistentActorId)
    (sequence : UInt64) : List VmPersistentActorEvent :=
  match store.events[actorId]? with
  | none => []
  | some events => (events.toList.filter fun entry => sequence + 1 ≤ entry.1).map Prod.snd

def replay (store : VmInMemoryPersistentActorStore) (actorId : VmPersistentActorId)
    (expectedSchema : VmPersistentActorSchema) :
    Except VmPersistentActorStoreOutcome VmPersistentActorReplay :=
  match store.loadSnapshot actorId with
  | none => .error (.missingSnapshot actorId)
  | some snapshot =>
    if snapshot.schema ≠ expectedSchema then
      .error (.incompatibleSchema actorId expectedSchema snapshot.schema)
    else .ok ⟨snapshot, store.eventsAfter actorId snapshot.lastEventSequence⟩

end VmInMemoryPersistentActorStore

/-! ## The store behind a file -/

/-- What stands at the path of a store. -/
inductive LogFile where
  | missing
  | unreadable (error : String)
  | text (content : List Char)

/-- A store with the file at its path. -/
structure VmFileBackedPersistentActorStore where
  file : LogFile
  inner : VmInMemoryPersistentActorStore

inductive OpenFault where
  | unreadable (error : String)
  | corrupt (line : Nat) (fault : RecordFault)
  | rejectedSnapshot (line : Nat) (outcome : VmPersistentActorStoreOutcome)
  | rejectedEvent (line : Nat) (outcome : VmPersistentActorStoreOutcome)

namespace VmFileBackedPersistentActorStore

/-- Puts one record of the log through the guarded write it came from. -/
def loadRecord (inner : VmInMemoryPersistentActorStore) (line : Nat) (record : FileBackedRecord) :
    Except OpenFault VmInMemoryPersistentActorStore :=
  match record with
  | .snapshot snapshot =>
    match inner.storeSnapshot snapshot with
    | (inner, .snapshotStored _) => .ok inner
    | (_, outcome) => .error (.rejectedSnapshot line outcome)
  | .event event =>
    match inner.appendEvent event with
    | (inner, .eventAppended _) => .ok inner
    | (inner, .replayed _) => .ok inner
    | (_, outcome) => .error (.rejectedEvent line outcome)

/-- The lines of the log, counted from `line`. Blank lines are skipped. -/
def loadLines (inner : VmInMemoryPersistentActorStore) (line : Nat) :
    List (List Char) → Except OpenFault VmInMemoryPersistentActorStore
  | [] => .ok inner
  | row :: rows =>
    if row.all isWhitespace then loadLines inner (line + 1) rows
    else do
      let record ← (parseFileBackedRecord row).mapError (.corrupt line)
      let inner ← loadRecord inner line record
      loadLines inner (line + 1) rows

def loadFileBackedLog (file : LogFile) : Except OpenFault VmInMemoryPersistentActorStore :=
  match file with
  | .missing => .ok .new
  | .unreadable error => .error (.unreadable error)
  | .text content => loadLines .new 1 (lines content)

def openFileBacked (file : LogFile) : Except OpenFault VmFileBackedPersistentActorStore := do
  let inner ← loadFileBackedLog file
  return ⟨file, inner⟩

/-- Every snapshot, then every event, each in the order of their keys. -/
def logRecords (inner : VmInMemoryPersistentActorStore) : List FileBackedRecord :=
  (valuesOf inner.snapshots).map .snapshot ++
    ((valuesOf inner.events).flatMap valuesOf).map .event

def logText (inner : VmInMemoryPersistentActorStore) : Except RecordFault (List Char) :=
  unlines <$> (logRecords inner).mapM encodeRecord

/-- Writes the log; `disk` is the fault that the file system reports, if any. -/
def persistFileBackedLog (store : VmFileBackedPersistentActorStore) (disk : Option FileFault) :
    VmFileBackedPersistentActorStore × Except PersistFault Unit :=
  match logText store.inner with
  | .error fault => (store, .error (.record fault))
  | .ok content =>
    match disk with
    | none => ({ store with file := .text content }, .ok ())
    | some fault =>
      if fault.step = .syncDirectory then
        ({ store with file := .text content }, .error (.file fault))
      else (store, .error (.file fault))

def storeSnapshot (store : VmFileBackedPersistentActorStore) (disk : Option FileFault)
    (snapshot : VmPersistentActorSnapshot) :
    VmFileBackedPersistentActorStore × VmPersistentActorStoreOutcome :=
  match encodeSnapshotRecord snapshot with
  | .error fault => (store, .persistenceFailed snapshot.actorId (.record fault))
  | .ok _ =>
    match store.inner.storeSnapshot snapshot with
    | (inner, .snapshotStored stored) =>
      match persistFileBackedLog { store with inner } disk with
      | (store, .error reason) => (store, .persistenceFailed stored.actorId reason)
      | (store, .ok ()) => (store, .snapshotStored stored)
    | (inner, outcome) => ({ store with inner }, outcome)

def appendEvent (store : VmFileBackedPersistentActorStore) (disk : Option FileFault)
    (event : VmPersistentActorEvent) :
    VmFileBackedPersistentActorStore × VmPersistentActorStoreOutcome :=
  match encodeEventRecord event with
  | .error fault => (store, .persistenceFailed event.actorId (.record fault))
  | .ok _ =>
    match store.inner.appendEvent event with
    | (inner, .eventAppended appended) =>
      match persistFileBackedLog { store with inner } disk with
      | (store, .error reason) => (store, .persistenceFailed appended.actorId reason)
      | (store, .ok ()) => (store, .eventAppended appended)
    | (inner, outcome) => ({ store with inner }, outcome)

def replay (store : VmFileBackedPersistentActorStore) (actorId : VmPersistentActorId)
    (expectedSchema : VmPersistentActorSchema) :
    Except VmPersistentActorStoreOutcome VmPersistentActorReplay :=
  store.inner.replay actorId expectedSchema

end VmFileBackedPersistentActorStore

/-! ## Calls -/

/-- A write, and the fault of the file system it meets if it gets that far. -/
structure StoreCall where
  record : FileBackedRecord
  disk : Option FileFault

def StoreCall.run (store : VmFileBackedPersistentActorStore) (call : StoreCall) :
    VmFileBackedPersistentActorStore × VmPersistentActorStoreOutcome :=
  match call.record with
  | .snapshot snapshot => store.storeSnapshot call.disk snapshot
  | .event event => store.appendEvent call.disk event

namespace VmInMemoryPersistentActorStore

/-! ## What a write does -/

/-- The event of an actor at a sequence. -/
def eventAt (store : VmInMemoryPersistentActorStore) (actorId : VmPersistentActorId)
    (sequence : UInt64) : Option VmPersistentActorEvent :=
  store.events[actorId]?.bind (·[sequence]?)

/-- The event is of the schema of its actor's snapshot and later than it. -/
def Follows (store : VmInMemoryPersistentActorStore) (event : VmPersistentActorEvent) : Prop :=
  ∀ snapshot, store.snapshots[event.actorId]? = some snapshot →
    snapshot.schema = event.schema ∧ snapshot.lastEventSequence < event.sequence

/-- A write that is neither stale nor of another schema. -/
def Fresh (store : VmInMemoryPersistentActorStore) : FileBackedRecord → Prop
  | .snapshot snapshot =>
    (∀ current, store.snapshots[snapshot.actorId]? = some current →
      current.schema = snapshot.schema ∧ current.generation < snapshot.generation) ∧
    store.latestEventSequence snapshot.actorId ≤ snapshot.lastEventSequence
  | .event event =>
    store.Follows event ∧ store.latestEventSequence event.actorId < event.sequence

/-- The store with the record in it. -/
def write (store : VmInMemoryPersistentActorStore) :
    FileBackedRecord → VmInMemoryPersistentActorStore
  | .snapshot snapshot =>
    { store with snapshots := store.snapshots.insert snapshot.actorId snapshot }
  | .event event =>
    { store with
      events := store.events.insert event.actorId
        ((store.events[event.actorId]?.getD ∅).insert event.sequence event) }

variable {store : VmInMemoryPersistentActorStore}

theorem storeSnapshot_of_fresh
    {snapshot : VmPersistentActorSnapshot} (fresh : store.Fresh (.snapshot snapshot)) :
    store.storeSnapshot snapshot = (store.write (.snapshot snapshot), .snapshotStored snapshot) := by
  obtain ⟨newer, later⟩ := fresh
  unfold storeSnapshot
  cases found : store.snapshots[snapshot.actorId]? with
  | none =>
    dsimp only
    rw [if_neg (by simpa using later)]
    rfl
  | some current =>
    obtain ⟨schema, generation⟩ := newer current found
    dsimp only
    rw [if_neg (by simpa using schema), if_neg (by simpa using generation)]
    dsimp only
    rw [if_neg (by simpa using later)]
    rfl

/-- A refused snapshot leaves the store as it is, and the answer keeps nothing. -/
theorem storeSnapshot_of_stale
    {snapshot : VmPersistentActorSnapshot} (stale : ¬ store.Fresh (.snapshot snapshot)) :
    ∃ outcome, store.storeSnapshot snapshot = (store, outcome) ∧ outcome.kept = none := by
  unfold storeSnapshot
  cases found : store.snapshots[snapshot.actorId]? with
  | none =>
    dsimp only
    by_cases later : snapshot.lastEventSequence < store.latestEventSequence snapshot.actorId
    · rw [if_pos later]
      exact ⟨_, rfl, rfl⟩
    refine absurd ⟨fun current here => ?_, ?_⟩ stale
    · rw [found] at here
      cases here
    · simpa using later
  | some current =>
    dsimp only
    by_cases schema : current.schema = snapshot.schema
    · rw [if_neg (by simpa using schema)]
      by_cases generation : snapshot.generation ≤ current.generation
      · rw [if_pos generation]
        exact ⟨_, rfl, rfl⟩
      rw [if_neg generation]
      dsimp only
      by_cases later : snapshot.lastEventSequence < store.latestEventSequence snapshot.actorId
      · rw [if_pos later]
        exact ⟨_, rfl, rfl⟩
      refine absurd ⟨fun current' here => ?_, ?_⟩ stale
      · rw [found] at here
        cases here
        exact ⟨schema, by simpa using generation⟩
      · simpa using later
    · rw [if_pos schema]
      exact ⟨_, rfl, rfl⟩

variable {event : VmPersistentActorEvent}

/-- The refusal of `append_event` on account of the snapshot. -/
theorem appendEvent_of_not_follows (stale : ¬ store.Follows event) :
    ∃ outcome, store.appendEvent event = (store, outcome) ∧ outcome.kept = none := by
  unfold appendEvent
  cases found : store.snapshots[event.actorId]? with
  | none =>
    refine absurd (fun snapshot here => ?_) stale
    rw [found] at here
    cases here
  | some snapshot =>
    dsimp only
    by_cases schema : snapshot.schema = event.schema
    · rw [if_neg (by simpa using schema)]
      by_cases later : event.sequence ≤ snapshot.lastEventSequence
      · rw [if_pos later]
        exact ⟨_, rfl, rfl⟩
      refine absurd (fun snapshot' here => ?_) stale
      rw [found] at here
      cases here
      exact ⟨schema, by simpa using later⟩
    · rw [if_pos schema]
      exact ⟨_, rfl, rfl⟩

/-- Behind the check against the snapshot. -/
theorem appendEvent_of_follows (follows : store.Follows event) :
    store.appendEvent event =
      let events := store.events[event.actorId]?.getD ∅
      let entered := { store with events := store.events.insert event.actorId events }
      match events[event.sequence]? with
      | some existing =>
        if existing = event then (entered, .replayed existing)
        else (entered, .duplicateEvent event.actorId event.sequence)
      | none =>
        if event.sequence ≤ events.maxKey?.getD 0 then
          (entered, .staleEvent event.actorId (events.maxKey?.getD 0) event.sequence)
        else (entered.write (.event event), .eventAppended event) := by
  unfold appendEvent
  cases found : store.snapshots[event.actorId]? with
  | none => simp [write]
  | some snapshot =>
    obtain ⟨schema, later⟩ := follows snapshot found
    dsimp only
    rw [if_neg (by simpa using schema), if_neg (by simpa using later)]
    simp [write]

theorem entered_write (store : VmInMemoryPersistentActorStore) (event : VmPersistentActorEvent) :
    ({ store with
        events := store.events.insert event.actorId (store.events[event.actorId]?.getD ∅) } :
      VmInMemoryPersistentActorStore).write (.event event) = store.write (.event event) := by
  have events : (store.events.insert event.actorId (store.events[event.actorId]?.getD ∅)).insert
      event.actorId ((store.events[event.actorId]?.getD ∅).insert event.sequence event) =
        store.events.insert event.actorId
          ((store.events[event.actorId]?.getD ∅).insert event.sequence event) := by
    apply ExtTreeMap.ext_getElem?
    intro a
    simp only [getElem?_insert_eq]
    split <;> rfl
  simp only [write, getElem?_insert_self_eq, Option.getD_some, events]

theorem le_latestEventSequence {actorId : VmPersistentActorId} {m : UInt64}
    (here : store.eventAt actorId m = some event) : m ≤ store.latestEventSequence actorId := by
  unfold eventAt at here
  obtain ⟨events, found, listed⟩ := Option.bind_eq_some_iff.mp here
  have mem : m ∈ events := ExtTreeMap.mem_iff_isSome_getElem?.mpr (by rw [listed]; rfl)
  cases last : events.maxKey? with
  | none =>
    rw [ExtTreeMap.maxKey?_eq_none_iff] at last
    subst last
    exact absurd mem ExtTreeMap.not_mem_empty
  | some latest =>
    have within := (ExtTreeMap.maxKey?_eq_some_iff_mem_and_forall.mp last).2 m mem
    rw [latestEventSequence, found, Option.bind_some, last]
    exact Std.isLE_compare.mp within

theorem latestEventSequence_eq (store : VmInMemoryPersistentActorStore)
    (actorId : VmPersistentActorId) : store.latestEventSequence actorId = 0 ∨
      ∃ event, store.eventAt actorId (store.latestEventSequence actorId) = some event := by
  unfold latestEventSequence eventAt
  cases found : store.events[actorId]? with
  | none => exact .inl rfl
  | some events =>
    simp only [Option.bind_some]
    cases last : events.maxKey? with
    | none => exact .inl rfl
    | some latest =>
      have mem := (ExtTreeMap.maxKey?_eq_some_iff_mem_and_forall.mp last).1
      exact .inr (Option.isSome_iff_exists.mp (ExtTreeMap.mem_iff_isSome_getElem?.mp mem))

theorem latestEventSequence_lt_iff {actorId : VmPersistentActorId} {n : UInt64} (positive : n ≠ 0) :
    store.latestEventSequence actorId < n ↔
      ∀ m event, store.eventAt actorId m = some event → m < n := by
  constructor
  · intro later m event here
    exact UInt64.lt_of_le_of_lt (le_latestEventSequence here) later
  · intro all
    rcases store.latestEventSequence_eq actorId with zero | ⟨event, here⟩
    · rw [zero]
      exact UInt64.pos_iff_ne_zero.mpr positive
    · exact all _ event here

theorem appendEvent_of_fresh (fresh : store.Fresh (.event event)) :
    store.appendEvent event = (store.write (.event event), .eventAppended event) := by
  obtain ⟨follows, later⟩ := fresh
  have before := (latestEventSequence_lt_iff event.sequenced).mp later
  have vacant : (store.events[event.actorId]?.getD ∅)[event.sequence]? = none := by
    cases found : store.events[event.actorId]? with
    | none => exact ExtTreeMap.getElem?_empty
    | some events =>
      cases here : events[event.sequence]? with
      | none => exact here
      | some existing =>
        have at_ : store.eventAt event.actorId event.sequence = some existing := by
          rw [eventAt, found]
          exact here
        exact absurd (before _ existing at_) (UInt64.lt_irrefl _)
  have last : ¬ event.sequence ≤ (store.events[event.actorId]?.getD ∅).maxKey?.getD 0 := by
    rw [UInt64.not_le]
    unfold latestEventSequence at later
    cases found : store.events[event.actorId]? with
    | none =>
      rw [found] at later
      rw [Option.getD_none, ExtTreeMap.maxKey?_empty]
      exact later
    | some events =>
      rw [found] at later
      exact later
  rw [appendEvent_of_follows follows]
  dsimp only
  rw [vacant]
  dsimp only
  rw [if_neg last, entered_write]

/-- An event that is not new leaves the store as it is, and is refused or already there. -/
theorem appendEvent_of_stale (stale : ¬ store.Fresh (.event event)) :
    ∃ outcome, store.appendEvent event = (store, outcome) ∧ (outcome.kept = none ∨
      outcome = .replayed event ∧ store.Follows event ∧
        store.eventAt event.actorId event.sequence = some event) := by
  by_cases follows : store.Follows event
  case neg =>
    obtain ⟨outcome, run, kept⟩ := appendEvent_of_not_follows follows
    exact ⟨outcome, run, .inl kept⟩
  have late : event.sequence ≤ store.latestEventSequence event.actorId :=
    UInt64.not_lt.mp fun later => stale ⟨follows, later⟩
  cases found : store.events[event.actorId]? with
  | none =>
    rw [latestEventSequence, found] at late
    exact absurd (UInt64.le_zero_iff.mp late) event.sequenced
  | some events =>
    have entered : store.events.insert event.actorId events = store.events :=
      insert_getElem?_eq _ found
    rw [appendEvent_of_follows follows]
    simp only [found, Option.getD_some, entered]
    cases here : events[event.sequence]? with
    | none =>
      rw [latestEventSequence, found, Option.bind_some] at late
      dsimp only
      rw [if_pos late]
      exact ⟨_, rfl, .inl rfl⟩
    | some existing =>
      dsimp only
      split
      next same =>
        subst same
        exact ⟨_, rfl, .inr ⟨rfl, follows, Option.bind_eq_some_iff.mpr ⟨events, found, here⟩⟩⟩
      next => exact ⟨_, rfl, .inl rfl⟩

end VmInMemoryPersistentActorStore

end Terlan.PersistentActorStore
