/-
  What an answer of the file-backed store promises. The store in memory is written before the
  file is, and stays written when the file cannot be: a failed call leaves an event in memory
  that the next attempt finds there. `acknowledged_durable_iff`: the answers of a run are good
  exactly if no write that the memory accepts meets a fault of the disk. That a snapshot was
  stored or an event appended is good in every run.
-/
import Terlan.PersistentActorStore.Reload

namespace Terlan.PersistentActorStore

open Terlan.Lib StoreCall List
open Std (ExtTreeMap)

/-- The record is one of the lines of the file. -/
def InFile (file : LogFile) (record : FileBackedRecord) : Prop :=
  ∃ content, file = .text content ∧
    ∃ row ∈ lines content, parseFileBackedRecord row = .ok record

namespace VmInMemoryPersistentActorStore

variable {store : VmInMemoryPersistentActorStore}

variable {event : VmPersistentActorEvent}

theorem eventAt_write {record : FileBackedRecord} {a : VmPersistentActorId} {n : UInt64}
    (found : (store.write record).eventAt a n = some event) :
    record = .event event ∨ store.eventAt a n = some event := by
  cases record with
  | snapshot snapshot => exact .inr found
  | event written =>
    rw [eventAt_write_event] at found
    split at found
    next =>
      cases found
      exact .inl rfl
    next => exact .inr found

/-- A write that is accepted changes the store. -/
theorem write_ne {record : FileBackedRecord} (fresh : store.Fresh record) :
    store.write record ≠ store := by
  intro same
  cases record with
  | snapshot snapshot =>
    have stored : store.snapshots[snapshot.actorId]? = some snapshot := by
      rw [← same, snapshots_write_snapshot, if_pos rfl]
    exact absurd (fresh.1 snapshot stored).2 (UInt64.lt_irrefl _)
  | event event =>
    have stored : store.eventAt event.actorId event.sequence = some event := by
      rw [← same, eventAt_write_event, if_pos ⟨rfl, rfl⟩]
    exact absurd ((latestEventSequence_lt_iff event.sequenced).mp fresh.2 _ event stored)
      (UInt64.lt_irrefl _)

/-- An event that is there is answered as replayed. -/
theorem appendEvent_of_there (follows : store.Follows event)
    (there : store.eventAt event.actorId event.sequence = some event) :
    store.appendEvent event = (store, .replayed event) := by
  obtain ⟨events, found, listed⟩ := Option.bind_eq_some_iff.mp there
  rw [appendEvent_of_follows follows]
  simp only [found, Option.getD_some, listed, if_true, insert_getElem?_eq _ found]

end VmInMemoryPersistentActorStore

namespace VmFileBackedPersistentActorStore

open VmInMemoryPersistentActorStore

/-! ## Files -/

/-- What is in a store that was read was there before, or is on one of the lines. -/
theorem eventAt_loadLines {inner inner' : VmInMemoryPersistentActorStore} {line : Nat}
    {rows : List (List Char)} (read : loadLines inner line rows = .ok inner')
    {a : VmPersistentActorId} {n : UInt64} {event : VmPersistentActorEvent}
    (found : inner'.eventAt a n = some event) : inner.eventAt a n = some event ∨
      ∃ row ∈ rows, parseFileBackedRecord row = .ok (.event event) := by
  induction rows generalizing inner line with
  | nil =>
    cases read
    exact .inl found
  | cons row rows ih =>
    have later (next : inner'.eventAt a n = some event) (mem : ∃ other ∈ rows,
        parseFileBackedRecord other = .ok (.event event)) : ∃ other ∈ row :: rows,
          parseFileBackedRecord other = .ok (.event event) := by
      obtain ⟨other, listed, parsed⟩ := mem
      exact ⟨other, mem_cons_of_mem _ listed, parsed⟩
    rw [loadLines] at read
    split at read
    · exact (ih read).imp_right (later found)
    obtain ⟨record, parsed, read⟩ := except_bind_ok_iff.mp read
    obtain ⟨loaded, load, read⟩ := except_bind_ok_iff.mp read
    have parses : parseFileBackedRecord row = .ok record := by
      cases answer : parseFileBackedRecord row with
      | error fault =>
        rw [answer] at parsed
        cases parsed
      | ok other =>
        rw [answer] at parsed
        cases parsed
        rfl
    rcases ih read with held | listed
    · rcases loadRecord_ok load with ⟨-, rfl⟩ | ⟨_, -, -, rfl⟩
      · rcases eventAt_write held with rfl | before
        · exact .inr ⟨row, mem_cons_self, parses⟩
        · exact .inl before
      · exact .inl held
    · exact .inr (later found listed)

/-- Every event in memory is in the file. -/
def Remembered (store : VmFileBackedPersistentActorStore) : Prop :=
  ∀ a n event, store.inner.eventAt a n = some event → InFile store.file (.event event)

theorem remembered_of_open {file : LogFile} {opened : VmFileBackedPersistentActorStore}
    (begun : openFileBacked file = .ok opened) : Remembered opened := by
  intro a n event found
  obtain ⟨inner, read, eq⟩ := except_bind_ok_iff.mp begun
  cases eq
  unfold loadFileBackedLog at read
  split at read
  next =>
    cases read
    rw [eventAt_new] at found
    cases found
  next => cases read
  next content =>
    rcases eventAt_loadLines read found with new | listed
    · rw [eventAt_new] at new
      cases new
    · exact ⟨content, rfl, listed⟩

variable {store : VmFileBackedPersistentActorStore}

/-- All records of a store are in its file when it is written. -/
theorem inFile_of_written (written : Written store)
    {record : FileBackedRecord} (mem : record ∈ logRecords store.inner) :
    InFile store.file record := by
  obtain ⟨content, text, file⟩ := written
  refine ⟨content, file, ?_⟩
  obtain ⟨rows, encoded, rfl⟩ := except_map_ok_iff.mp text
  obtain ⟨row, listed, line⟩ := Forall₂.exists_of_mem_right (mapM_ok_iff.mp encoded).flip mem
  have plain : ∀ row ∈ rows, '\n' ∉ row ∧ '\r' ∉ row := by
    intro row mem
    obtain ⟨record, -, line⟩ := Forall₂.exists_of_mem_right (mapM_ok_iff.mp encoded) mem
    exact (encodeRecord_plain line).1
  refine ⟨row, ?_, parse_encodeRecord line⟩
  rw [lines_unlines (ne_nil_of_mem listed) plain]
  exact listed

theorem remembered_of_written
    (wf : store.inner.WellFormed) (written : Written store) : Remembered store := by
  intro a n event found
  obtain ⟨rfl, rfl⟩ := wf.eventKey a n event found
  have listed := (mem_logEvents wf).mpr found
  exact inFile_of_written written (mem_append_right _ (mem_map.mpr ⟨event, listed, rfl⟩))

theorem mem_logRecords_write {inner : VmInMemoryPersistentActorStore} {record : FileBackedRecord}
    (wf : (inner.write record).WellFormed) : record ∈ logRecords (inner.write record) := by
  cases record with
  | snapshot snapshot =>
    have stored : (inner.write (.snapshot snapshot)).snapshots[snapshot.actorId]? =
        some snapshot := by rw [snapshots_write_snapshot, if_pos rfl]
    have listed := (mem_logSnapshots wf).mpr stored
    exact mem_append_left _ (mem_map.mpr ⟨snapshot, listed, rfl⟩)
  | event event =>
    have stored : (inner.write (.event event)).eventAt event.actorId event.sequence =
        some event := by rw [eventAt_write_event, if_pos ⟨rfl, rfl⟩]
    have listed := (mem_logEvents wf).mpr stored
    exact mem_append_right _ (mem_map.mpr ⟨event, listed, rfl⟩)

/-! ## Calls -/

/-- A write that the memory accepts reaches the file. -/
def Persists (store : VmFileBackedPersistentActorStore) (call : StoreCall) : Prop :=
  Accepts store call → call.disk = none

/-- The answer to the call is good: what it says is kept is in the file, and if it says that the
call failed, the store is as it was. -/
structure Durable (store : VmFileBackedPersistentActorStore) (call : StoreCall) : Prop where
  kept : ∀ record, (call.run store).2.kept = some record → InFile (call.run store).1.file record
  failed : ∀ actorId reason, (call.run store).2 = .persistenceFailed actorId reason →
    (call.run store).1 = store

/-- What is answered as written is in the file. -/
def DoneDurably (store : VmFileBackedPersistentActorStore) (call : StoreCall) : Prop :=
  ∀ record, (call.run store).2 = .done record → InFile (call.run store).1.file record

theorem kept_done (record : FileBackedRecord) :
    (VmPersistentActorStoreOutcome.done record).kept = some record := by
  cases record <;> rfl

theorem wellFormed_run (wf : store.inner.WellFormed)
    (call : StoreCall) : (call.run store).1.inner.WellFormed := by
  by_cases accepts : Accepts store call
  · rw [(run_accepts wf accepts).1]
    exact wf.write accepts.2 accepts.1
  · rw [(run_of_refused accepts).1]
    exact wf

section Step

variable {store : VmFileBackedPersistentActorStore} {call : StoreCall}

/-- In every store, what is answered as done is in the file. -/
theorem doneDurably_run (wf : store.inner.WellFormed) : DoneDurably store call := by
  intro record done
  by_cases accepts : Accepts store call
  · have wf' := wellFormed_run wf call
    obtain ⟨inner, ⟨-, answer, written⟩ | ⟨-, _, _, failed⟩⟩ := run_accepts wf accepts
    · have same : call.record = record := by
        have kept := congrArg VmPersistentActorStoreOutcome.kept (answer.symm.trans done)
        rw [kept_done, kept_done] at kept
        exact Option.some.inj kept
      subst same
      refine inFile_of_written written ?_
      rw [inner] at wf' ⊢
      exact mem_logRecords_write wf'
    · rw [done] at failed
      cases record <;> cases failed
  · rcases (run_of_refused accepts).2 with kept | ⟨event, -, replayed, -⟩
    · rw [done, kept_done] at kept
      cases kept
    · rw [done] at replayed
      cases record <;> cases replayed

/-- One answer is good exactly if the write reaches the file where the memory accepts it. -/
theorem durable_iff (wf : store.inner.WellFormed) (remembered : Remembered store) :
    Durable store call ↔ Persists store call := by
  by_cases accepts : Accepts store call
  · obtain ⟨inner, ⟨persists, answer, written⟩ | ⟨fails, _, _, failed⟩⟩ := run_accepts wf accepts
    · refine iff_of_true ⟨fun record kept => ?_, fun _ _ failed => ?_⟩ fun _ => persists
      · rw [answer, kept_done] at kept
        cases kept
        exact doneDurably_run wf _ answer
      · rw [answer] at failed
        cases record : call.record <;> rw [record] at failed <;> cases failed
    · refine iff_of_false (fun durable => ?_) fun persists => fails (persists accepts)
      have same := congrArg VmFileBackedPersistentActorStore.inner (durable.failed _ _ failed)
      rw [inner] at same
      exact write_ne accepts.2 same
  · refine iff_of_true ⟨fun record kept => ?_, fun _ _ _ => (run_of_refused accepts).1⟩
      fun accepted => absurd accepted accepts
    rw [(run_of_refused accepts).1]
    rcases (run_of_refused accepts).2 with notKept | ⟨event, -, replayed, there⟩
    · rw [notKept] at kept
      cases kept
    · rw [replayed] at kept
      cases kept
      exact remembered _ _ _ there

/-- Where accepted writes reach the file, the file keeps up with the memory. -/
theorem remembered_run (wf : store.inner.WellFormed) (remembered : Remembered store)
    (persists : Persists store call) : Remembered (call.run store).1 := by
  by_cases accepts : Accepts store call
  · obtain ⟨-, ⟨-, -, written⟩ | ⟨fails, -⟩⟩ := run_accepts wf accepts
    · exact remembered_of_written (wellFormed_run wf call) written
    · exact absurd (persists accepts) fails
  · rw [(run_of_refused accepts).1]
    exact remembered

end Step

/-! ## Runs -/

theorem guarded_doneDurably (wf : store.inner.WellFormed) (calls : List StoreCall) :
    Guarded run DoneDurably store calls := by
  induction calls generalizing store with
  | nil => trivial
  | cons call calls ih => exact ⟨doneDurably_run wf, ih (wellFormed_run wf call)⟩

theorem guarded_durable_iff
    (wf : store.inner.WellFormed) (remembered : Remembered store) (calls : List StoreCall) :
    Guarded run Durable store calls ↔ Guarded run Persists store calls := by
  induction calls generalizing store with
  | nil => exact Iff.rfl
  | cons call calls ih =>
    rw [Guarded, Guarded, durable_iff wf remembered]
    apply and_congr_right
    intro persists
    exact ih (wellFormed_run wf call) (remembered_run wf remembered persists)

/-- Of every run from an opened file, with any faults of the disk: what is answered as stored or
appended is in the file. Every answer is good, and every failure leaves the store as it was,
exactly if the disk fails at no write that the memory accepts. -/
theorem acknowledged_durable_iff {file : LogFile} {opened : VmFileBackedPersistentActorStore}
    (begun : openFileBacked file = .ok opened) (calls : List StoreCall) :
    Guarded run DoneDurably opened calls ∧
      (Guarded run Durable opened calls ↔ Guarded run Persists opened calls) :=
  ⟨guarded_doneDurably (wellFormed_of_open begun) calls,
    guarded_durable_iff (wellFormed_of_open begun) (remembered_of_open begun) calls⟩

theorem acknowledged_durable_iff_retry : Guarded run DoneDurably freshStore
      [⟨.event counterEvent, some ⟨.write, "no space left on device"⟩⟩,
        ⟨.event counterEvent, none⟩] :=
  (acknowledged_durable_iff (show openFileBacked .missing = .ok freshStore from rfl) _).1

/-- An event whose file could not be written is answered as replayed when it is tried again. -/
theorem retry_replays (wf : store.inner.WellFormed)
    {event : VmPersistentActorEvent} {fault : FileFault}
    (accepts : Accepts store ⟨.event event, some fault⟩) (early : fault.step ≠ .syncDirectory) :
    Lib.replay run store [⟨.event event, some fault⟩, ⟨.event event, none⟩] =
      (⟨store.file, store.inner.write (.event event)⟩,
        [(⟨.event event, some fault⟩, .persistenceFailed event.actorId (.file fault)),
          (⟨.event event, none⟩, .replayed event)]) := by
  obtain ⟨⟨line, encoded⟩, fresh⟩ := accepts
  obtain ⟨rows, -, content⟩ := logText_ok (wf.write fresh ⟨line, encoded⟩)
  change encodeEventRecord event = .ok line at encoded
  have first : run store ⟨.event event, some fault⟩ =
      (⟨store.file, store.inner.write (.event event)⟩,
        .persistenceFailed event.actorId (.file fault)) := by
    simp only [run, appendEvent, encoded, appendEvent_of_fresh fresh,
      persistFileBackedLog, content, if_neg early]
  have there : (store.inner.write (.event event)).eventAt event.actorId event.sequence =
      some event := by rw [eventAt_write_event, if_pos ⟨rfl, rfl⟩]
  have follows : (store.inner.write (.event event)).Follows event := fresh.1
  have second : run ⟨store.file, store.inner.write (.event event)⟩
      ⟨.event event, none⟩ =
        (⟨store.file, store.inner.write (.event event)⟩, .replayed event) := by
    simp only [run, appendEvent, encoded, appendEvent_of_there follows there]
  rw [Lib.replay, Lib.replay, Lib.replay, first, second]

/-- The first attempt fails and leaves no file; the second is answered as a replay. -/
theorem retry_not_written : (openFileBacked .missing = .ok freshStore ∧
      ∃ before, (Lib.replay run freshStore
          [⟨.event counterEvent, some ⟨.write, "no space left on device"⟩⟩,
            ⟨.event counterEvent, none⟩]).2 =
        [before, (⟨.event counterEvent, none⟩, .replayed counterEvent)]) ∧
      ¬ InFile (Lib.replay run freshStore
        [⟨.event counterEvent, some ⟨.write, "no space left on device"⟩⟩,
          ⟨.event counterEvent, none⟩]).1.file (.event counterEvent) := by
  have accepts : Accepts freshStore
      ⟨.event counterEvent, some ⟨.write, "no space left on device"⟩⟩ := accepts_counterEvent
  have run := retry_replays wellFormed_freshStore accepts (by decide)
  rw [run]
  refine ⟨⟨rfl, _, rfl⟩, ?_⟩
  rintro ⟨content, file, -⟩
  cases file

end VmFileBackedPersistentActorStore

end Terlan.PersistentActorStore
