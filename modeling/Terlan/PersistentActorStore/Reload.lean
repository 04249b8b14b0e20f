/-
  What a store writes and what it reads back. The log lists the snapshots before the events,
  and reading puts them through the same guards, so an event is refused when the snapshot of
  its actor is not older than it. A store without such a pair is uncrossed, and it is the
  uncrossed stores that read back.

  * `reload_of_uncrossed`, `uncrossed_of_reload`: a well-formed store reads back from its log
    if and only if it is uncrossed.
  * `log_reloads_iff`: a run reads back if and only if no snapshot was stored for an actor that
    already had events.
-/
import Terlan.PersistentActorStore.Store

namespace Terlan.PersistentActorStore

open Terlan.Lib Terlan.TermFormat StoreCall List
open Std (ExtTreeMap)

namespace VmInMemoryPersistentActorStore

variable {store : VmInMemoryPersistentActorStore}

/-! ## Lookups after a write -/

theorem snapshots_write_snapshot (store : VmInMemoryPersistentActorStore)
    (snapshot : VmPersistentActorSnapshot) (a : VmPersistentActorId) :
    (store.write (.snapshot snapshot)).snapshots[a]? =
      if snapshot.actorId = a then some snapshot else store.snapshots[a]? :=
  getElem?_insert_eq _ _ _ _

theorem eventAt_write_snapshot (store : VmInMemoryPersistentActorStore)
    (snapshot : VmPersistentActorSnapshot) :
    (store.write (.snapshot snapshot)).eventAt = store.eventAt := rfl

theorem eventAt_write_event (store : VmInMemoryPersistentActorStore)
    (event : VmPersistentActorEvent) (a : VmPersistentActorId) (n : UInt64) :
    (store.write (.event event)).eventAt a n =
      if event.actorId = a ∧ event.sequence = n then some event else store.eventAt a n := by
  unfold eventAt write
  simp only [getElem?_insert_eq]
  by_cases actor : event.actorId = a
  · subst actor
    rw [if_pos rfl, Option.bind_some, getElem?_insert_eq]
    by_cases sequence : event.sequence = n
    · rw [if_pos sequence, if_pos ⟨rfl, sequence⟩]
    rw [if_neg sequence, if_neg fun both => sequence both.2]
    cases store.events[event.actorId]? with
    | none => exact ExtTreeMap.getElem?_empty
    | some events => rfl
  · rw [if_neg actor, if_neg fun both => actor both.1]

/-! ## Well-formed stores -/

/-- No actor has an empty map of events. -/
def Occupied (store : VmInMemoryPersistentActorStore) : Prop :=
  ∀ (a : VmPersistentActorId) (events : ExtTreeMap UInt64 VmPersistentActorEvent),
    store.events[a]? = some events → ∃ n event, store.eventAt a n = some event

structure WellFormed (store : VmInMemoryPersistentActorStore) : Prop where
  snapshotActor : ∀ (a : VmPersistentActorId) (snapshot : VmPersistentActorSnapshot),
    store.snapshots[a]? = some snapshot → snapshot.actorId = a
  eventKey : ∀ a n event, store.eventAt a n = some event → event.actorId = a ∧ event.sequence = n
  occupied : store.Occupied
  eventSchema : ∀ (a : VmPersistentActorId) (snapshot : VmPersistentActorSnapshot) n event,
    store.snapshots[a]? = some snapshot → store.eventAt a n = some event →
    snapshot.lastEventSequence < n → snapshot.schema = event.schema
  snapshotEncodable : ∀ (a : VmPersistentActorId) (snapshot : VmPersistentActorSnapshot),
    store.snapshots[a]? = some snapshot → Encodable (.snapshot snapshot)
  eventEncodable : ∀ a n event, store.eventAt a n = some event → Encodable (.event event)

/-- Every event is later than the snapshot of its actor. -/
def Uncrossed (store : VmInMemoryPersistentActorStore) : Prop :=
  ∀ (a : VmPersistentActorId) (snapshot : VmPersistentActorSnapshot) n event,
    store.snapshots[a]? = some snapshot → store.eventAt a n = some event → snapshot.lastEventSequence < n

theorem eventAt_new (a : VmPersistentActorId) (n : UInt64) : new.eventAt a n = none := by
  have empty : new.events[a]? = none := ExtTreeMap.getElem?_empty
  rw [eventAt, empty]
  rfl

theorem wellFormed_new : new.WellFormed := by
  have snapshots (a : VmPersistentActorId) : new.snapshots[a]? = none := ExtTreeMap.getElem?_empty
  have events (a : VmPersistentActorId) : new.events[a]? = none := ExtTreeMap.getElem?_empty
  constructor
  · intro a snapshot found
    rw [snapshots] at found
    cases found
  · intro a n event found
    rw [eventAt_new] at found
    cases found
  · intro a held found
    rw [events] at found
    cases found
  · intro a snapshot n event found
    rw [snapshots] at found
    cases found
  · intro a snapshot found
    rw [snapshots] at found
    cases found
  · intro a n event found
    rw [eventAt_new] at found
    cases found

variable {snapshot : VmPersistentActorSnapshot} {event : VmPersistentActorEvent}

/-- A fresh snapshot is not older than any event of its actor. -/
theorem eventAt_le_of_fresh (fresh : store.Fresh (.snapshot snapshot)) {n : UInt64}
    (found : store.eventAt snapshot.actorId n = some event) : n ≤ snapshot.lastEventSequence :=
  UInt64.le_trans (le_latestEventSequence found) fresh.2

theorem occupied_write (occupied : store.Occupied) (record : FileBackedRecord) :
    (store.write record).Occupied := by
  cases record with
  | snapshot snapshot => exact occupied
  | event event =>
    intro a events found
    by_cases actor : event.actorId = a
    · exact ⟨event.sequence, event, by rw [eventAt_write_event, if_pos ⟨actor, rfl⟩]⟩
    have before : store.events[a]? = some events := by
      simpa [write, getElem?_insert_eq, actor] using found
    obtain ⟨n, held, here⟩ := occupied a events before
    exact ⟨n, held, by rw [eventAt_write_event, if_neg fun both => actor both.1]; exact here⟩

theorem WellFormed.write (wf : store.WellFormed) {record : FileBackedRecord}
    (fresh : store.Fresh record) (encodable : Encodable record) :
    (store.write record).WellFormed := by
  cases record with
  | snapshot snapshot =>
    have lookup := snapshots_write_snapshot store snapshot
    refine ⟨?_, wf.eventKey, wf.occupied, ?_, ?_, wf.eventEncodable⟩
    · intro a found here
      rw [lookup] at here
      split at here
      next actor => cases here; exact actor
      next => exact wf.snapshotActor a found here
    · intro a found n event here listed later
      rw [lookup] at here
      split at here
      next actor =>
        cases here
        subst actor
        exact absurd later (UInt64.not_lt.mpr (eventAt_le_of_fresh fresh listed))
      next => exact wf.eventSchema a found n event here listed later
    · intro a found here
      rw [lookup] at here
      split at here
      next => cases here; exact encodable
      next => exact wf.snapshotEncodable a found here
  | event event =>
    have lookup := eventAt_write_event store event
    refine ⟨wf.snapshotActor, ?_, occupied_write wf.occupied _, ?_, wf.snapshotEncodable, ?_⟩
    · intro a n found here
      rw [lookup] at here
      split at here
      next key => cases here; exact key
      next => exact wf.eventKey a n found here
    · intro a snapshot n found here listed later
      rw [lookup] at listed
      split at listed
      next key =>
        cases listed
        obtain ⟨rfl, rfl⟩ := key
        exact (fresh.1 snapshot here).1
      next => exact wf.eventSchema a snapshot n found here listed later
    · intro a n found here
      rw [lookup] at here
      split at here
      next => cases here; exact encodable
      next => exact wf.eventEncodable a n found here

/-- A snapshot stored for an actor with events crosses them. -/
theorem uncrossed_write_snapshot (wf : store.WellFormed)
    (fresh : store.Fresh (.snapshot snapshot)) : (store.write (.snapshot snapshot)).Uncrossed ↔
      store.Uncrossed ∧ store.events[snapshot.actorId]? = none := by
  have lookup := snapshots_write_snapshot store snapshot
  constructor
  · intro uncrossed
    have vacant : store.events[snapshot.actorId]? = none := by
      by_contra some_
      obtain ⟨events, found⟩ := Option.ne_none_iff_exists'.mp some_
      obtain ⟨n, event, here⟩ := wf.occupied _ events found
      have later := uncrossed snapshot.actorId snapshot n event (by rw [lookup, if_pos rfl]) here
      exact absurd later (UInt64.not_lt.mpr (eventAt_le_of_fresh fresh here))
    refine ⟨fun a current n event found here => ?_, vacant⟩
    have other : snapshot.actorId ≠ a := by
      rintro rfl
      rw [eventAt, vacant] at here
      cases here
    exact uncrossed a current n event (by rw [lookup, if_neg other]; exact found) here
  · rintro ⟨uncrossed, vacant⟩ a current n event found here
    rw [lookup] at found
    split at found
    next actor =>
      subst actor
      rw [eventAt_write_snapshot, eventAt, vacant] at here
      cases here
    next => exact uncrossed a current n event found here

theorem uncrossed_write_event (fresh : store.Fresh (.event event)) :
    (store.write (.event event)).Uncrossed ↔ store.Uncrossed := by
  have lookup := eventAt_write_event store event
  constructor
  · intro uncrossed a snapshot n held found here
    by_cases key : event.actorId = a ∧ event.sequence = n
    · exact uncrossed a snapshot n event found (by rw [lookup, if_pos key])
    · exact uncrossed a snapshot n held found (by rw [lookup, if_neg key]; exact here)
  · intro uncrossed a snapshot n held found here
    rw [lookup] at here
    split at here
    next key =>
      obtain ⟨rfl, rfl⟩ := key
      exact (fresh.1 snapshot found).2
    next => exact uncrossed a snapshot n held found here

/-! ## Runs of fresh records -/

/-- Every record is fresh when its turn comes. -/
def FreshRun (store : VmInMemoryPersistentActorStore) : List FileBackedRecord → Prop
  | [] => True
  | record :: records => store.Fresh record ∧ (store.write record).FreshRun records

theorem freshRun_append (store : VmInMemoryPersistentActorStore) (xs ys : List FileBackedRecord) :
    store.FreshRun (xs ++ ys) ↔ store.FreshRun xs ∧ (xs.foldl write store).FreshRun ys := by
  induction xs generalizing store with
  | nil => simp [FreshRun]
  | cons x xs ih => simp [FreshRun, ih, and_assoc]

/-- Snapshots of different actors, put into a store without events. -/
theorem freshRun_snapshots {snapshots : List VmPersistentActorSnapshot}
    (distinct : snapshots.Pairwise (·.actorId ≠ ·.actorId))
    (absent : ∀ snapshot ∈ snapshots, store.snapshots[snapshot.actorId]? = none)
    (eventless : ∀ a n, store.eventAt a n = none) : store.FreshRun (snapshots.map .snapshot) := by
  induction snapshots generalizing store with
  | nil => trivial
  | cons snapshot snapshots ih =>
    obtain ⟨others, distinct⟩ := pairwise_cons.mp distinct
    refine ⟨⟨?_, ?_⟩, ih distinct ?_ eventless⟩
    · intro current found
      rw [absent snapshot mem_cons_self] at found
      cases found
    · rcases store.latestEventSequence_eq snapshot.actorId with zero | ⟨event, here⟩
      · rw [zero]
        exact UInt64.zero_le
      · rw [eventless] at here
        cases here
    · intro later mem
      rw [snapshots_write_snapshot, if_neg (others later mem)]
      exact absent later (mem_cons_of_mem _ mem)

theorem foldl_snapshots (store : VmInMemoryPersistentActorStore)
    (snapshots : List VmPersistentActorSnapshot) :
    ((snapshots.map FileBackedRecord.snapshot).foldl write store).events = store.events ∧
      ∀ a, (∀ snapshot ∈ snapshots, snapshot.actorId ≠ a) →
        ((snapshots.map FileBackedRecord.snapshot).foldl write store).snapshots[a]? =
          store.snapshots[a]? := by
  induction snapshots generalizing store with
  | nil => exact ⟨rfl, fun _ _ => rfl⟩
  | cons snapshot snapshots ih =>
    obtain ⟨events, others⟩ := ih (store.write (.snapshot snapshot))
    refine ⟨events, fun a absent => ?_⟩
    rw [map_cons, foldl_cons,
      others a fun later mem => absent later (mem_cons_of_mem _ mem),
      snapshots_write_snapshot, if_neg (absent snapshot mem_cons_self)]

theorem foldl_snapshots_mem {snapshots : List VmPersistentActorSnapshot}
    (distinct : snapshots.Pairwise (·.actorId ≠ ·.actorId))
    (mem : snapshot ∈ snapshots) (store : VmInMemoryPersistentActorStore) :
    ((snapshots.map FileBackedRecord.snapshot).foldl write store).snapshots[snapshot.actorId]? =
      some snapshot := by
  induction snapshots generalizing store with
  | nil => cases mem
  | cons first snapshots ih =>
    obtain ⟨others, distinct⟩ := pairwise_cons.mp distinct
    rcases mem_cons.mp mem with rfl | mem
    · rw [map_cons, foldl_cons,
        (foldl_snapshots _ snapshots).2 _ fun later listed => (others later listed).symm,
        snapshots_write_snapshot, if_pos rfl]
    · exact ih distinct mem _

/-- Events in the order of the sequences of their actor, each behind the snapshots there are. -/
def Ordered (events : List VmPersistentActorEvent) : Prop :=
  events.Pairwise fun earlier later =>
    earlier.actorId = later.actorId → earlier.sequence < later.sequence

theorem freshRun_events {events : List VmPersistentActorEvent} (ordered : Ordered events)
    (follows : ∀ event ∈ events, store.Follows event)
    (later : ∀ event ∈ events, ∀ m held, store.eventAt event.actorId m = some held →
      m < event.sequence) : store.FreshRun (events.map .event) := by
  induction events generalizing store with
  | nil => trivial
  | cons event events ih =>
    obtain ⟨others, ordered⟩ := pairwise_cons.mp ordered
    have fresh : store.Fresh (.event event) :=
      ⟨follows event mem_cons_self,
        (latestEventSequence_lt_iff event.sequenced).mpr (later event mem_cons_self)⟩
    refine ⟨fresh, ih ordered ?_ ?_⟩
    · exact fun next mem => follows next (mem_cons_of_mem _ mem)
    · intro next mem m held here
      rw [eventAt_write_event] at here
      split at here
      next key => exact key.2 ▸ others next mem key.1
      next => exact later next (mem_cons_of_mem _ mem) m held here

theorem foldl_events (store : VmInMemoryPersistentActorStore)
    (events : List VmPersistentActorEvent) :
    ((events.map FileBackedRecord.event).foldl write store).snapshots = store.snapshots ∧
      (store.Occupied → ((events.map FileBackedRecord.event).foldl write store).Occupied) ∧
      ∀ a n, (∀ event ∈ events, ¬ (event.actorId = a ∧ event.sequence = n)) →
        ((events.map FileBackedRecord.event).foldl write store).eventAt a n =
          store.eventAt a n := by
  induction events generalizing store with
  | nil => exact ⟨rfl, id, fun _ _ _ => rfl⟩
  | cons event events ih =>
    obtain ⟨snapshots, occupied, others⟩ := ih (store.write (.event event))
    refine ⟨snapshots, fun before => occupied (occupied_write before _), fun a n absent => ?_⟩
    rw [map_cons, foldl_cons,
      others a n fun later mem => absent later (mem_cons_of_mem _ mem),
      eventAt_write_event, if_neg (absent event mem_cons_self)]

theorem foldl_events_mem {events : List VmPersistentActorEvent} (ordered : Ordered events)
    (mem : event ∈ events) (store : VmInMemoryPersistentActorStore) :
    ((events.map FileBackedRecord.event).foldl write store).eventAt event.actorId event.sequence =
      some event := by
  induction events generalizing store with
  | nil => cases mem
  | cons first events ih =>
    obtain ⟨others, ordered⟩ := pairwise_cons.mp ordered
    rcases mem_cons.mp mem with rfl | mem
    · rw [map_cons, foldl_cons, (foldl_events _ events).2.2, eventAt_write_event,
        if_pos ⟨rfl, rfl⟩]
      rintro later listed ⟨actor, sequence⟩
      have above := others later listed actor.symm
      rw [sequence] at above
      exact UInt64.lt_irrefl _ above
    · exact ih ordered mem _

/-! ## The log of a store -/

/-- The snapshots and the events of a store, in the order of the log. -/
def logSnapshots (store : VmInMemoryPersistentActorStore) : List VmPersistentActorSnapshot :=
  valuesOf store.snapshots

def logEvents (store : VmInMemoryPersistentActorStore) : List VmPersistentActorEvent :=
  (valuesOf store.events).flatMap valuesOf

theorem mem_logSnapshots (wf : store.WellFormed) :
    snapshot ∈ store.logSnapshots ↔ store.snapshots[snapshot.actorId]? = some snapshot := by
  rw [logSnapshots, mem_valuesOf]
  constructor
  · rintro ⟨a, found⟩
    rw [wf.snapshotActor a snapshot found]
    exact found
  · exact fun found => ⟨_, found⟩

theorem mem_logEvents (wf : store.WellFormed) :
    event ∈ store.logEvents ↔ store.eventAt event.actorId event.sequence = some event := by
  rw [logEvents, mem_flatMap]
  constructor
  · rintro ⟨events, listed, mem⟩
    obtain ⟨a, found⟩ := mem_valuesOf.mp listed
    obtain ⟨n, here⟩ := mem_valuesOf.mp mem
    have at_ : store.eventAt a n = some event := by
      rw [eventAt, found]
      exact here
    obtain ⟨rfl, rfl⟩ := wf.eventKey a n event at_
    exact at_
  · intro at_
    obtain ⟨events, found, here⟩ := Option.bind_eq_some_iff.mp at_
    exact ⟨events, mem_valuesOf.mpr ⟨_, found⟩, mem_valuesOf.mpr ⟨_, here⟩⟩

/-- The values of a map, in the order of their keys. -/
theorem pairwise_toList_lt {κ ν : Type} [Ord κ] [Std.TransOrd κ] (m : ExtTreeMap κ ν) :
    m.toList.Pairwise fun a b => compare a.1 b.1 = .lt :=
  ExtTreeMap.ordered_keys_toList

theorem logSnapshots_distinct (wf : store.WellFormed) :
    store.logSnapshots.Pairwise (·.actorId ≠ ·.actorId) := by
  rw [logSnapshots, valuesOf, pairwise_map]
  refine (pairwise_toList_lt store.snapshots).imp_of_mem fun {a b} memA memB order same => ?_
  have keyA := wf.snapshotActor _ _ (ExtTreeMap.mem_toList_iff_getElem?_eq_some.mp memA)
  have keyB := wf.snapshotActor _ _ (ExtTreeMap.mem_toList_iff_getElem?_eq_some.mp memB)
  rw [← keyA, ← keyB, same, Std.compare_self] at order
  cases order

/-- What a member of a map of events is keyed by. -/
theorem key_of_mem_toList (wf : store.WellFormed) {a : VmPersistentActorId}
    {events : ExtTreeMap UInt64 VmPersistentActorEvent} (found : store.events[a]? = some events)
    {entry : UInt64 × VmPersistentActorEvent} (mem : entry ∈ events.toList) :
    entry.2.actorId = a ∧ entry.2.sequence = entry.1 := by
  have here := ExtTreeMap.mem_toList_iff_getElem?_eq_some.mp mem
  apply wf.eventKey
  rw [eventAt, found]
  exact here

theorem logEvents_ordered (wf : store.WellFormed) : Ordered store.logEvents := by
  rw [Ordered, logEvents, pairwise_flatMap]
  constructor
  · intro events listed
    obtain ⟨a, found⟩ := mem_valuesOf.mp listed
    rw [valuesOf, pairwise_map]
    refine (pairwise_toList_lt events).imp_of_mem fun {x y} memX memY order _ => ?_
    rw [(key_of_mem_toList wf found memX).2, (key_of_mem_toList wf found memY).2]
    exact Std.compare_eq_lt.mp order
  · rw [valuesOf, pairwise_map]
    refine (pairwise_toList_lt store.events).imp_of_mem fun {x y} memX memY order => ?_
    have foundX := ExtTreeMap.mem_toList_iff_getElem?_eq_some.mp memX
    have foundY := ExtTreeMap.mem_toList_iff_getElem?_eq_some.mp memY
    intro earlier listedX later listedY same
    obtain ⟨entryX, memX, rfl⟩ := mem_map.mp listedX
    obtain ⟨entryY, memY, rfl⟩ := mem_map.mp listedY
    rw [(key_of_mem_toList wf foundX memX).1, (key_of_mem_toList wf foundY memY).1] at same
    rw [same, Std.compare_self] at order
    cases order

/-- Stores with the same events at every sequence, and no empty map of events in them. -/
theorem events_ext {left right : VmInMemoryPersistentActorStore}
    (same : ∀ a n, left.eventAt a n = right.eventAt a n) (leftOccupied : left.Occupied)
    (rightOccupied : right.Occupied) : left.events = right.events := by
  apply ExtTreeMap.ext_getElem?
  intro a
  cases inLeft : left.events[a]? with
  | none =>
    cases inRight : right.events[a]? with
    | none => rfl
    | some events =>
      obtain ⟨n, event, here⟩ := rightOccupied a events inRight
      rw [← same, eventAt, inLeft] at here
      cases here
  | some events =>
    cases inRight : right.events[a]? with
    | none =>
      obtain ⟨n, event, here⟩ := leftOccupied a events inLeft
      rw [same, eventAt, inRight] at here
      cases here
    | some events' =>
      congr 1
      apply ExtTreeMap.ext_getElem?
      intro n
      have at_ := same a n
      rw [eventAt, eventAt, inLeft, inRight] at at_
      exact at_

theorem foldl_logSnapshots (wf : store.WellFormed) :
    ((store.logSnapshots.map FileBackedRecord.snapshot).foldl write new).snapshots =
      store.snapshots := by
  apply ExtTreeMap.ext_getElem?
  intro a
  cases found : store.snapshots[a]? with
  | none =>
    rw [(foldl_snapshots new store.logSnapshots).2 a]
    · exact ExtTreeMap.getElem?_empty
    · rintro snapshot mem rfl
      rw [(mem_logSnapshots wf).mp mem] at found
      cases found
  | some snapshot =>
    have actor := wf.snapshotActor a snapshot found
    subst actor
    exact foldl_snapshots_mem (logSnapshots_distinct wf) ((mem_logSnapshots wf).mpr found) new

/-- The records of the log put together again are the store. -/
theorem foldl_logRecords (wf : store.WellFormed) :
    (VmFileBackedPersistentActorStore.logRecords store).foldl write new = store := by
  have snapshots := foldl_logSnapshots wf
  have eventless := (foldl_snapshots new store.logSnapshots).1
  change (store.logSnapshots.map FileBackedRecord.snapshot ++
    store.logEvents.map FileBackedRecord.event).foldl write new = store
  rw [foldl_append]
  generalize (store.logSnapshots.map FileBackedRecord.snapshot).foldl write new = base
    at snapshots eventless
  obtain ⟨kept, occupied, others⟩ := foldl_events base store.logEvents
  have baseOccupied : base.Occupied := fun a events found => by
    rw [eventless] at found
    exact absurd found (by rw [show new.events[a]? = none from ExtTreeMap.getElem?_empty]; simp)
  have events : ((store.logEvents.map FileBackedRecord.event).foldl write base).events =
      store.events := by
    refine events_ext (fun a n => ?_) (occupied baseOccupied) wf.occupied
    cases found : store.eventAt a n with
    | none =>
      rw [others a n]
      · rw [eventAt, eventless]
        exact eventAt_new a n
      · rintro event mem ⟨rfl, rfl⟩
        rw [(mem_logEvents wf).mp mem] at found
        cases found
    | some event =>
      obtain ⟨rfl, rfl⟩ := wf.eventKey a n event found
      exact foldl_events_mem (logEvents_ordered wf) ((mem_logEvents wf).mpr found) base
  generalize (store.logEvents.map FileBackedRecord.event).foldl write base = final at kept events
  obtain ⟨finalSnapshots, finalEvents⟩ := final
  obtain ⟨storeSnapshots, storeEvents⟩ := store
  exact congrArg₂ mk (kept.trans snapshots) events

/-- The log of an uncrossed store is accepted record by record. -/
theorem freshRun_logRecords (wf : store.WellFormed) (uncrossed : store.Uncrossed) :
    new.FreshRun (VmFileBackedPersistentActorStore.logRecords store) := by
  have snapshots := foldl_logSnapshots wf
  have eventless := (foldl_snapshots new store.logSnapshots).1
  refine (freshRun_append new _ _).mpr ⟨?_, ?_⟩
  · refine freshRun_snapshots (logSnapshots_distinct wf) (fun _ _ => ?_) eventAt_new
    exact ExtTreeMap.getElem?_empty
  · change ((store.logSnapshots.map FileBackedRecord.snapshot).foldl write new).FreshRun
      (store.logEvents.map .event)
    generalize (store.logSnapshots.map FileBackedRecord.snapshot).foldl write new = base
      at snapshots eventless
    refine freshRun_events (logEvents_ordered wf) (fun event mem snapshot found => ?_)
      fun event _ m held here => ?_
    · have here := (mem_logEvents wf).mp mem
      rw [snapshots] at found
      have later := uncrossed _ snapshot _ event found here
      exact ⟨wf.eventSchema _ snapshot _ event found here later, later⟩
    · rw [eventAt, eventless] at here
      exact absurd here (by rw [← eventAt, eventAt_new]; simp)

end VmInMemoryPersistentActorStore

namespace VmFileBackedPersistentActorStore

open VmInMemoryPersistentActorStore

/-! ## Reading a log -/

/-- The records of the lines, one for one. -/
def loadRecords (inner : VmInMemoryPersistentActorStore) (line : Nat) :
    List FileBackedRecord → Except OpenFault VmInMemoryPersistentActorStore
  | [] => .ok inner
  | record :: records => do
    let inner ← loadRecord inner line record
    loadRecords inner (line + 1) records

theorem loadLines_encoded {records : List FileBackedRecord} {rows : List (List Char)}
    (written : records.mapM encodeRecord = .ok rows) (inner : VmInMemoryPersistentActorStore)
    (line : Nat) : loadLines inner line rows = loadRecords inner line records := by
  have each := mapM_ok_iff.mp written
  clear written
  induction each generalizing inner line with
  | nil => rfl
  | @cons record row records rows encoded _ ih =>
    have visible := (encodeRecord_plain encoded).2
    rw [loadLines, if_neg (by rw [visible]; exact Bool.false_ne_true),
      parse_encodeRecord encoded, loadRecords]
    change (loadRecord inner line record >>= fun inner => loadLines inner (line + 1) rows) = _
    exact congrArg (loadRecord inner line record >>= ·) (funext fun inner => ih inner (line + 1))

/-- What reading one record does, if it succeeds. -/
theorem loadRecord_ok {inner inner' : VmInMemoryPersistentActorStore} {line : Nat}
    {record : FileBackedRecord} (h : loadRecord inner line record = .ok inner') :
    (inner.Fresh record ∧ inner' = inner.write record) ∨
      ∃ event, record = .event event ∧ inner.Follows event ∧ inner' = inner := by
  cases record with
  | snapshot snapshot =>
    by_cases fresh : inner.Fresh (.snapshot snapshot)
    · rw [loadRecord, storeSnapshot_of_fresh fresh] at h
      cases h
      exact .inl ⟨fresh, rfl⟩
    · obtain ⟨outcome, refused, notKept⟩ := storeSnapshot_of_stale fresh
      rw [loadRecord, refused] at h
      cases outcome with
      | snapshotStored stored => cases notKept
      | _ => cases h
  | event event =>
    by_cases fresh : inner.Fresh (.event event)
    · rw [loadRecord, appendEvent_of_fresh fresh] at h
      cases h
      exact .inl ⟨fresh, rfl⟩
    · obtain ⟨outcome, refused, notKept | ⟨rfl, follows, -⟩⟩ := appendEvent_of_stale fresh
      · rw [loadRecord, refused] at h
        cases outcome with
        | eventAppended | replayed => cases notKept
        | _ => cases h
      · rw [loadRecord, refused] at h
        cases h
        exact .inr ⟨event, rfl, follows, rfl⟩

variable {inner : VmInMemoryPersistentActorStore}

theorem loadRecord_of_fresh {record : FileBackedRecord} (fresh : inner.Fresh record) (line : Nat) :
    loadRecord inner line record = .ok (inner.write record) := by
  cases record with
  | snapshot snapshot => rw [loadRecord, storeSnapshot_of_fresh fresh]
  | event event => rw [loadRecord, appendEvent_of_fresh fresh]

theorem loadRecords_of_freshRun
    {records : List FileBackedRecord} (fresh : inner.FreshRun records) (line : Nat)
    (more : List FileBackedRecord) : loadRecords inner line (records ++ more) =
      loadRecords (records.foldl write inner) (line + records.length) more := by
  induction records generalizing inner line with
  | nil => rfl
  | cons record records ih =>
    rw [cons_append, loadRecords, loadRecord_of_fresh fresh.1]
    change loadRecords (inner.write record) (line + 1) (records ++ more) = _
    rw [ih fresh.2, foldl_cons, length_cons, Nat.add_assoc, Nat.add_comm 1]

/-- Events that are read follow the snapshots read before them. -/
theorem follows_of_loadRecords {inner inner' : VmInMemoryPersistentActorStore} {line : Nat}
    {events : List VmPersistentActorEvent}
    (h : loadRecords inner line (events.map .event) = .ok inner') :
    ∀ event ∈ events, inner.Follows event := by
  induction events generalizing inner line with
  | nil => exact fun _ mem => by cases mem
  | cons first events ih =>
    obtain ⟨next, read, rest⟩ := except_bind_ok_iff.mp h
    have others := ih rest
    have head : inner.Follows first ∧ next.snapshots = inner.snapshots := by
      rcases loadRecord_ok read with ⟨fresh, rfl⟩ | ⟨event, same, follows, rfl⟩
      · exact ⟨fresh.1, rfl⟩
      · cases same
        exact ⟨follows, rfl⟩
    intro event mem
    rcases mem_cons.mp mem with rfl | mem
    · exact head.1
    · intro snapshot found
      exact others event mem snapshot (by rw [head.2]; exact found)

/-- Whatever the lines are, what is read is well formed. -/
theorem wellFormed_of_loadLines {inner inner' : VmInMemoryPersistentActorStore} {line : Nat}
    {rows : List (List Char)} (wf : inner.WellFormed)
    (h : loadLines inner line rows = .ok inner') : inner'.WellFormed := by
  induction rows generalizing inner line with
  | nil => cases h; exact wf
  | cons row rows ih =>
    rw [loadLines] at h
    split at h
    · exact ih wf h
    obtain ⟨record, parsed, rest⟩ := except_bind_ok_iff.mp h
    obtain ⟨next, read, rest⟩ := except_bind_ok_iff.mp rest
    have encodable : Encodable record := by
      cases result : parseFileBackedRecord row with
      | error fault => rw [result] at parsed; cases parsed
      | ok found =>
        rw [result] at parsed
        cases parsed
        exact encodable_of_parse result
    refine ih ?_ rest
    rcases loadRecord_ok read with ⟨fresh, rfl⟩ | ⟨event, -, -, rfl⟩
    · exact wf.write fresh encodable
    · exact wf

variable {store : VmFileBackedPersistentActorStore}

theorem wellFormed_of_open {file : LogFile}
    (h : openFileBacked file = .ok store) : store.inner.WellFormed := by
  obtain ⟨inner, read, eq⟩ := except_bind_ok_iff.mp h
  cases eq
  unfold loadFileBackedLog at read
  split at read
  next => cases read; exact wellFormed_new
  next => cases read
  next => exact wellFormed_of_loadLines wellFormed_new read

/-! ## The written log -/

theorem logText_ok (wf : inner.WellFormed) :
    ∃ rows, (logRecords inner).mapM encodeRecord = .ok rows ∧
      logText inner = .ok (unlines rows) := by
  have each : ∀ record ∈ logRecords inner, Encodable record := by
    intro record mem
    rcases mem_append.mp mem with mem | mem
    · obtain ⟨snapshot, listed, rfl⟩ := mem_map.mp mem
      exact wf.snapshotEncodable _ snapshot ((mem_logSnapshots wf).mp listed)
    · obtain ⟨event, listed, rfl⟩ := mem_map.mp mem
      exact wf.eventEncodable _ _ event ((mem_logEvents wf).mp listed)
  obtain ⟨rows, written⟩ := exists_mapM_ok each
  exact ⟨rows, written, by rw [logText, written]; rfl⟩

variable {content : List Char}

/-- Reading the written log is reading its records. -/
theorem load_logText (written : logText inner = .ok content) :
    loadFileBackedLog (.text content) = loadRecords .new 1 (logRecords inner) := by
  obtain ⟨rows, encoded, rfl⟩ := except_map_ok_iff.mp written
  rw [loadFileBackedLog]
  have plain : ∀ row ∈ rows, '\n' ∉ row ∧ '\r' ∉ row := by
    intro row mem
    obtain ⟨record, -, line⟩ := Forall₂.exists_of_mem_right (mapM_ok_iff.mp encoded) mem
    exact (encodeRecord_plain line).1
  cases rows with
  | nil =>
    have empty : logRecords inner = [] := by
      have := (mapM_ok_iff.mp encoded).length_eq
      exact eq_nil_of_length_eq_zero this
    rw [empty]
    rfl
  | cons row rows =>
    rw [lines_unlines (cons_ne_nil _ _) plain]
    exact loadLines_encoded encoded _ _

theorem reload_of_uncrossed (wf : inner.WellFormed)
    (uncrossed : inner.Uncrossed) (written : logText inner = .ok content) :
    loadFileBackedLog (.text content) = .ok inner := by
  have read := loadRecords_of_freshRun (freshRun_logRecords wf uncrossed) 1 []
  rw [append_nil, foldl_logRecords wf] at read
  rw [load_logText written, read]
  rfl

theorem uncrossed_of_reload {inner inner' : VmInMemoryPersistentActorStore}
    (wf : inner.WellFormed) (written : logText inner = .ok content)
    (read : loadFileBackedLog (.text content) = .ok inner') : inner.Uncrossed := by
  have snapshots := foldl_logSnapshots wf
  have fresh : VmInMemoryPersistentActorStore.new.FreshRun
      (inner.logSnapshots.map FileBackedRecord.snapshot) :=
    freshRun_snapshots (logSnapshots_distinct wf) (fun _ _ => ExtTreeMap.getElem?_empty) eventAt_new
  rw [load_logText written] at read
  change loadRecords .new 1 (inner.logSnapshots.map .snapshot ++ inner.logEvents.map .event) = _
    at read
  rw [loadRecords_of_freshRun fresh] at read
  have follows := follows_of_loadRecords read
  intro a snapshot n event found here
  obtain ⟨rfl, rfl⟩ := wf.eventKey a n event here
  have behind := follows event ((mem_logEvents wf).mpr here)
  exact (behind snapshot (by rw [snapshots]; exact found)).2

/-! ## Replay after a reload -/

/-- No events behind a snapshot of the largest sequence, where the range of later events wraps. -/
def Exact (inner : VmInMemoryPersistentActorStore) : Prop :=
  ∀ (a : VmPersistentActorId) (snapshot : VmPersistentActorSnapshot),
    inner.snapshots[a]? = some snapshot → snapshot.lastEventSequence.toNat = u64Max →
    inner.events[a]? = none

/-- Replay returns the snapshot and, in order, the events that are later than it. -/
def ReplaysLater (inner : VmInMemoryPersistentActorStore) : Prop :=
  ∀ (a : VmPersistentActorId) (snapshot : VmPersistentActorSnapshot),
    inner.snapshots[a]? = some snapshot →
    ∃ events, inner.replay a snapshot.schema = .ok ⟨snapshot, events⟩ ∧
      events.Pairwise (·.sequence < ·.sequence) ∧
      ∀ event, event ∈ events ↔
        inner.eventAt a event.sequence = some event ∧ snapshot.lastEventSequence < event.sequence

theorem replay_of_snapshot {a : VmPersistentActorId}
    {snapshot : VmPersistentActorSnapshot} (found : inner.snapshots[a]? = some snapshot) :
    inner.replay a snapshot.schema =
      .ok ⟨snapshot, inner.eventsAfter a snapshot.lastEventSequence⟩ := by
  unfold VmInMemoryPersistentActorStore.replay loadSnapshot
  rw [found]
  dsimp only
  rw [if_neg (fun different => different rfl)]

theorem mem_eventsAfter (wf : inner.WellFormed)
    {a : VmPersistentActorId} {n : UInt64} {event : VmPersistentActorEvent} :
    event ∈ inner.eventsAfter a n ↔
      inner.eventAt a event.sequence = some event ∧ n + 1 ≤ event.sequence := by
  unfold eventsAfter
  cases found : inner.events[a]? with
  | none => simp [eventAt, found]
  | some events =>
    simp only [mem_map, mem_filter, decide_eq_true_eq]
    constructor
    · rintro ⟨entry, ⟨mem, later⟩, rfl⟩
      have key := key_of_mem_toList wf found mem
      have here := ExtTreeMap.mem_toList_iff_getElem?_eq_some.mp mem
      rw [key.2]
      refine ⟨?_, later⟩
      rw [eventAt, found]
      exact here
    · rintro ⟨here, later⟩
      rw [eventAt, found] at here
      exact ⟨(event.sequence, event),
        ⟨ExtTreeMap.mem_toList_iff_getElem?_eq_some.mpr here, later⟩, rfl⟩

theorem pairwise_eventsAfter (wf : inner.WellFormed) (a : VmPersistentActorId) (n : UInt64) :
    (inner.eventsAfter a n).Pairwise (·.sequence < ·.sequence) := by
  unfold eventsAfter
  cases found : inner.events[a]? with
  | none => exact List.Pairwise.nil
  | some events =>
    rw [pairwise_map]
    refine ((pairwise_toList_lt events).filter _).imp_of_mem fun {x y} memX memY order => ?_
    rw [(key_of_mem_toList wf found (mem_filter.mp memX).1).2,
      (key_of_mem_toList wf found (mem_filter.mp memY).1).2]
    exact Std.compare_eq_lt.mp order

theorem succ_le_iff {n m : UInt64} (below : n.toNat ≠ u64Max) : n + 1 ≤ m ↔ n < m := by
  have bound := n.toNat_lt
  have sum : (n + 1).toNat = n.toNat + 1 := by
    rw [UInt64.toNat_add]
    unfold u64Max at below
    exact Nat.mod_eq_of_lt (by change n.toNat + 1 < _; omega)
  rw [UInt64.le_iff_toNat_le, UInt64.lt_iff_toNat_lt, sum]
  exact Nat.succ_le_iff

theorem replaysLater_iff (wf : inner.WellFormed) : ReplaysLater inner ↔ Exact inner := by
  constructor
  · intro replays a snapshot found largest
    by_contra some_
    obtain ⟨held, listed⟩ := Option.ne_none_iff_exists'.mp some_
    obtain ⟨n, event, here⟩ := wf.occupied a held listed
    obtain ⟨events, replayed, -, exact_⟩ := replays a snapshot found
    rw [replay_of_snapshot found] at replayed
    cases replayed
    obtain ⟨rfl, rfl⟩ := wf.eventKey a n event here
    have wraps : snapshot.lastEventSequence + 1 = 0 := by
      apply UInt64.toNat_inj.mp
      rw [UInt64.toNat_add, largest]
      rfl
    have later := ((exact_ event).mp ((mem_eventsAfter wf).mpr
      ⟨here, by rw [wraps]; exact UInt64.zero_le⟩)).2
    rw [UInt64.lt_iff_toNat_lt, largest] at later
    have bound := event.sequence.toNat_lt
    unfold u64Max at later
    omega
  · intro exact_ a snapshot found
    refine ⟨_, replay_of_snapshot found, pairwise_eventsAfter wf _ _, fun event => ?_⟩
    rw [mem_eventsAfter wf]
    by_cases largest : snapshot.lastEventSequence.toNat = u64Max
    · have vacant := exact_ a snapshot found largest
      simp [eventAt, vacant]
    · rw [succ_le_iff largest]

theorem exact_of_uncrossed (wf : inner.WellFormed) (uncrossed : inner.Uncrossed) : Exact inner := by
  intro a snapshot found largest
  by_contra some_
  obtain ⟨held, listed⟩ := Option.ne_none_iff_exists'.mp some_
  obtain ⟨n, event, here⟩ := wf.occupied a held listed
  have later := uncrossed a snapshot n event found here
  rw [UInt64.lt_iff_toNat_lt, largest] at later
  have bound := n.toNat_lt
  unfold u64Max at later
  omega

/-! ## Runs -/

/-- The call is written: its record has a line and is fresh. -/
def Accepts (store : VmFileBackedPersistentActorStore) (call : StoreCall) : Prop :=
  Encodable call.record ∧ store.inner.Fresh call.record

/-- A snapshot that is written finds its actor without events. -/
def SnapshotsFirst (store : VmFileBackedPersistentActorStore) (call : StoreCall) : Prop :=
  Accepts store call → ∀ snapshot, call.record = .snapshot snapshot →
    store.inner.events[snapshot.actorId]? = none

/-- The file is the log of the store. -/
def Written (store : VmFileBackedPersistentActorStore) : Prop :=
  ∃ content, logText store.inner = .ok content ∧ store.file = .text content

variable {call : StoreCall}

theorem persistFileBackedLog_cases {content : List Char}
    (log : logText store.inner = .ok content) (disk : Option FileFault) :
    disk = none ∧ persistFileBackedLog store disk = ({ store with file := .text content }, .ok ()) ∨
      disk ≠ none ∧ ∃ file reason,
        persistFileBackedLog store disk = ({ store with file }, .error reason) := by
  rw [persistFileBackedLog, log]
  cases disk with
  | none => exact .inl ⟨rfl, rfl⟩
  | some fault =>
    refine .inr ⟨Option.some_ne_none fault, ?_⟩
    dsimp only
    split <;> exact ⟨_, _, rfl⟩

/-- An accepted write is answered as done when it reaches the file, and as failed otherwise. In
memory it is done. -/
theorem run_accepts (wf : store.inner.WellFormed) (accepts : Accepts store call) :
    (call.run store).1.inner = store.inner.write call.record ∧
      ((call.disk = none ∧ (call.run store).2 = .done call.record ∧ Written (call.run store).1) ∨
        call.disk ≠ none ∧
          ∃ actorId reason, (call.run store).2 = .persistenceFailed actorId reason) := by
  obtain ⟨record, disk⟩ := call
  obtain ⟨⟨line, encoded⟩, fresh⟩ := accepts
  obtain ⟨rows, -, content⟩ := logText_ok (wf.write fresh ⟨line, encoded⟩)
  have persists := @persistFileBackedLog_cases { store with inner := store.inner.write record } _
    content disk
  cases record with
  | snapshot snapshot =>
    change encodeSnapshotRecord snapshot = .ok line at encoded
    rcases persists with ⟨done, persists⟩ | ⟨fails, file, reason, persists⟩
    all_goals simp only [run, storeSnapshot, encoded, storeSnapshot_of_fresh fresh, persists]
    · exact ⟨trivial, .inl ⟨done, rfl, _, content, rfl⟩⟩
    · exact ⟨trivial, .inr ⟨fails, _, _, rfl⟩⟩
  | event event =>
    change encodeEventRecord event = .ok line at encoded
    rcases persists with ⟨done, persists⟩ | ⟨fails, file, reason, persists⟩
    all_goals simp only [run, appendEvent, encoded, appendEvent_of_fresh fresh, persists]
    · exact ⟨trivial, .inl ⟨done, rfl, _, content, rfl⟩⟩
    · exact ⟨trivial, .inr ⟨fails, _, _, rfl⟩⟩

theorem run_accepted (wf : store.inner.WellFormed)
    (accepts : Accepts store call) (persists : call.disk = none) :
    (call.run store).1.inner = store.inner.write call.record ∧ Written (call.run store).1 :=
  (run_accepts wf accepts).imp_right fun answers =>
    (answers.resolve_right fun fails => fails.1 persists).2.2

/-- A refused call changes neither the store nor the file, and says that nothing is kept but an
event that is there. -/
theorem run_of_refused (refused : ¬ Accepts store call) : (call.run store).1 = store ∧
    ((call.run store).2.kept = none ∨
      ∃ event, call.record = .event event ∧ (call.run store).2 = .replayed event ∧
        store.inner.eventAt event.actorId event.sequence = some event) := by
  obtain ⟨record, disk⟩ := call
  cases record with
  | snapshot snapshot =>
    cases encoded : encodeSnapshotRecord snapshot with
    | error fault =>
      simp only [run, storeSnapshot, encoded]
      exact ⟨trivial, .inl rfl⟩
    | ok line =>
      obtain ⟨outcome, result, kept⟩ :=
        storeSnapshot_of_stale fun fresh => refused ⟨⟨line, encoded⟩, fresh⟩
      cases outcome with
      | snapshotStored stored => cases kept
      | _ =>
        simp only [run, storeSnapshot, encoded, result]
        exact ⟨trivial, .inl kept⟩
  | event event =>
    cases encoded : encodeEventRecord event with
    | error fault =>
      simp only [run, appendEvent, encoded]
      exact ⟨trivial, .inl rfl⟩
    | ok line =>
      obtain ⟨outcome, result, kept⟩ :=
        appendEvent_of_stale fun fresh => refused ⟨⟨line, encoded⟩, fresh⟩
      cases outcome with
      | eventAppended appended => rcases kept with kept | ⟨kept, -⟩ <;> cases kept
      | _ =>
        simp only [run, appendEvent, encoded, result]
        exact ⟨trivial, kept.imp_right fun ⟨same, _, there⟩ => ⟨event, rfl, same, there⟩⟩

/-- What a run comes to: well formed, unchanged or written to the file, and uncrossed exactly when
it began so and every snapshot came first. -/
structure RunSpec (first last : VmFileBackedPersistentActorStore) (calls : List StoreCall) :
    Prop where
  wellFormed : last.inner.WellFormed
  unchanged : Guarded run (fun store call => ¬ Accepts store call) first calls →
    last = first
  written : ¬ Guarded run (fun store call => ¬ Accepts store call) first calls →
    Written last
  uncrossed : last.inner.Uncrossed ↔
    first.inner.Uncrossed ∧ Guarded run SnapshotsFirst first calls

theorem uncrossed_run (wf : store.inner.WellFormed) (accepts : Accepts store call) :
    (store.inner.write call.record).Uncrossed ↔
      store.inner.Uncrossed ∧ SnapshotsFirst store call := by
  obtain ⟨record, disk⟩ := call
  cases record with
  | snapshot snapshot =>
    rw [uncrossed_write_snapshot wf accepts.2]
    refine and_congr_right fun _ => ⟨fun vacant _ other same => ?_, fun first => ?_⟩
    · cases same
      exact vacant
    · exact first accepts snapshot rfl
  | event event =>
    rw [uncrossed_write_event accepts.2]
    exact (and_iff_left fun _ _ same => by cases same).symm

theorem runSpec {first : VmFileBackedPersistentActorStore} (wf : first.inner.WellFormed)
    {calls : List StoreCall} (persists : ∀ call ∈ calls, call.disk = none) :
    RunSpec first (Lib.replay run first calls).1 calls := by
  induction calls generalizing first with
  | nil => exact ⟨wf, fun _ => rfl, fun h => absurd trivial h, by simp [Guarded]⟩
  | cons call calls ih =>
    have others : ∀ call ∈ calls, call.disk = none :=
      fun call mem => persists call (mem_cons_of_mem _ mem)
    rw [replay_cons_fst]
    by_cases accepts : Accepts first call
    · obtain ⟨inner, content⟩ := run_accepted wf accepts (persists call mem_cons_self)
      have rest := ih (by rw [inner]; exact wf.write accepts.2 accepts.1) others
      refine ⟨rest.wellFormed, fun refused => absurd accepts refused.1, fun _ => ?_, ?_⟩
      · by_cases refused : Guarded run (fun store call => ¬ Accepts store call)
            (call.run first).1 calls
        · rw [rest.unchanged refused]
          exact content
        · exact rest.written refused
      · rw [rest.uncrossed, inner, uncrossed_run wf accepts, Guarded, and_assoc]
    · have same := (run_of_refused accepts).1
      rw [same]
      have rest := ih wf others
      refine ⟨rest.wellFormed, fun refused => ?_, fun written => ?_, ?_⟩
      · rw [Guarded, same] at refused
        exact rest.unchanged refused.2
      · rw [Guarded, same] at written
        exact rest.written fun refused => written ⟨accepts, refused⟩
      · rw [rest.uncrossed, Guarded, same]
        have vacuous : SnapshotsFirst first call := fun accepted => absurd accepted accepts
        simp only [vacuous, true_and]

/-- Opening the file gives the same snapshots and events, and replay gives each snapshot with
exactly the later events. -/
def LogReloads (store : VmFileBackedPersistentActorStore) : Prop :=
  ∃ reopened, openFileBacked store.file = .ok reopened ∧ reopened.inner = store.inner ∧
    ReplaysLater reopened.inner

theorem logReloads_of_open {store reopened : VmFileBackedPersistentActorStore}
    (wf : store.inner.WellFormed) (opened : openFileBacked store.file = .ok reopened)
    (same : reopened.inner = store.inner) : LogReloads store ↔ Exact store.inner := by
  rw [← replaysLater_iff wf]
  constructor
  · rintro ⟨other, opened', eq, replays⟩
    rw [eq] at replays
    exact replays
  · exact fun replays => ⟨reopened, opened, same, by rw [same]; exact replays⟩

theorem logReloads_of_written (wf : store.inner.WellFormed) (written : Written store) :
    LogReloads store ↔ store.inner.Uncrossed := by
  obtain ⟨content, encoded, file⟩ := written
  constructor
  · rintro ⟨reopened, opened, -⟩
    rw [file] at opened
    obtain ⟨inner, read, -⟩ := except_bind_ok_iff.mp opened
    exact uncrossed_of_reload wf encoded read
  · intro uncrossed
    have read := reload_of_uncrossed wf uncrossed encoded
    have opened : openFileBacked store.file = .ok ⟨store.file, store.inner⟩ := by
      rw [openFileBacked, file, read]
      rfl
    exact (logReloads_of_open wf opened rfl).mpr (exact_of_uncrossed wf uncrossed)

/-- A run whose writes all reach the file reads back from it if and only if every snapshot it
wrote was written before any event of its actor. A store that was opened crossed reads back only
while nothing is written. -/
theorem log_reloads_iff {file : LogFile} {opened : VmFileBackedPersistentActorStore}
    (begun : openFileBacked file = .ok opened) (calls : List StoreCall)
    (persists : ∀ call ∈ calls, call.disk = none) : LogReloads (Lib.replay run opened calls).1 ↔
      Guarded run SnapshotsFirst opened calls ∧ (opened.inner.Uncrossed ∨
          Guarded run (fun store call => ¬ Accepts store call) opened calls ∧
            Exact opened.inner) := by
  have wf := wellFormed_of_open begun
  have spec := runSpec wf persists
  have reopens : openFileBacked opened.file = .ok opened := by
    obtain ⟨inner, -, eq⟩ := except_bind_ok_iff.mp begun
    cases eq
    exact begun
  by_cases refused : Guarded run (fun store call => ¬ Accepts store call) opened calls
  · have vacuous : Guarded run SnapshotsFirst opened calls :=
      guarded_imp (fun _ _ notAccepted accepted => absurd accepted notAccepted) refused
    rw [spec.unchanged refused, logReloads_of_open wf reopens rfl]
    simp only [vacuous, refused, true_and]
    exact ⟨.inr, fun either => either.elim (exact_of_uncrossed wf) id⟩
  · rw [logReloads_of_written spec.wellFormed (spec.written refused), spec.uncrossed]
    simp only [refused, false_and, or_false]
    exact and_comm

/-! ## An event and then a snapshot -/

def counter : VmPersistentActorId := ⟨"counter-1", by decide⟩

def counterSchema : VmPersistentActorSchema := ⟨"Counter", 1, by decide, by decide⟩

def counterEvent : VmPersistentActorEvent := ⟨counter, counterSchema, 1, .unit, by decide⟩

/-- The checkpoint taken after the event. -/
def counterSnapshot : VmPersistentActorSnapshot where
  actorId := counter
  schema := counterSchema
  generation := 1
  state := .unit
  mailboxCheckpoint := []
  timerCheckpoint := []
  resourceHandles := []
  lastEventSequence := 1
  generated := by decide
  handled := by simp

def crossedCalls : List StoreCall := [⟨.event counterEvent, none⟩, ⟨.snapshot counterSnapshot, none⟩]

/-- A store on a path without a file. -/
def freshStore : VmFileBackedPersistentActorStore := ⟨.missing, .new⟩

theorem wellFormed_freshStore : freshStore.inner.WellFormed := wellFormed_new

theorem log_reloads_iff_crossedCalls : LogReloads (Lib.replay run freshStore crossedCalls).1 ↔
      Guarded run SnapshotsFirst freshStore crossedCalls ∧ (freshStore.inner.Uncrossed ∨
          Guarded run (fun store call => ¬ Accepts store call) freshStore crossedCalls ∧
            Exact freshStore.inner) :=
  log_reloads_iff (show openFileBacked .missing = .ok freshStore from rfl) crossedCalls
    (by simp [crossedCalls])

theorem accepts_counterEvent : Accepts freshStore ⟨.event counterEvent, none⟩ := by
  refine ⟨⟨_, rfl⟩, fun snapshot found => ?_, ?_⟩
  · have empty : freshStore.inner.snapshots[counterEvent.actorId]? = none :=
      ExtTreeMap.getElem?_empty
    rw [empty] at found
    cases found
  · rw [latestEventSequence_lt_iff counterEvent.sequenced]
    intro m event here
    have vacant := eventAt_new counterEvent.actorId m
    change VmInMemoryPersistentActorStore.new.eventAt counterEvent.actorId m = some event at here
    rw [vacant] at here
    cases here

/-- The store after the event. -/
def counterStore : VmFileBackedPersistentActorStore :=
  (run freshStore ⟨.event counterEvent, none⟩).1

theorem counterStore_inner : counterStore.inner = freshStore.inner.write (.event counterEvent) :=
  (run_accepted wellFormed_freshStore accepts_counterEvent rfl).1

theorem eventAt_counterStore (n : UInt64) :
    counterStore.inner.eventAt counter n = if 1 = n then some counterEvent else none := by
  rw [counterStore_inner]
  refine (eventAt_write_event _ _ _ _).trans ?_
  have fresh : freshStore.inner.eventAt counter n = none := eventAt_new counter n
  rw [fresh]
  exact if_congr (and_iff_right rfl) rfl rfl

theorem accepts_counterSnapshot : Accepts counterStore ⟨.snapshot counterSnapshot, none⟩ := by
  refine ⟨⟨_, rfl⟩, fun current found => ?_, ?_⟩
  · have empty : (freshStore.inner.write (.event counterEvent)).snapshots[counter]? = none :=
      ExtTreeMap.getElem?_empty
    rw [counterStore_inner] at found
    exact absurd (empty.symm.trans found) (by simp)
  · change counterStore.inner.latestEventSequence counter ≤ 1
    rcases counterStore.inner.latestEventSequence_eq counter with zero | ⟨event, here⟩
    · rw [zero]
      decide
    rw [eventAt_counterStore] at here
    split at here
    next last =>
      rw [← last]
      decide
    next => cases here

/-- Both writes reach the file, and the file cannot be opened again. -/
theorem crossed_log_does_not_reopen :
    openFileBacked .missing = .ok freshStore ∧ (∀ call ∈ crossedCalls, call.disk = none) ∧
      ∀ reopened,
        openFileBacked (Lib.replay run freshStore crossedCalls).1.file ≠ .ok reopened := by
  have persists : ∀ call ∈ crossedCalls, call.disk = none := by simp [crossedCalls]
  refine ⟨rfl, persists, fun reopened opened => ?_⟩
  have spec := runSpec wellFormed_freshStore persists
  obtain ⟨content, encoded, file⟩ := spec.written fun refused => refused.1 accepts_counterEvent
  rw [file] at opened
  obtain ⟨inner, read, -⟩ := except_bind_ok_iff.mp opened
  have uncrossed := uncrossed_of_reload spec.wellFormed encoded read
  obtain ⟨-, -, second, -⟩ := spec.uncrossed.mp uncrossed
  have vacant : counterStore.inner.events[counter]? = none :=
    second accepts_counterSnapshot counterSnapshot rfl
  have held := eventAt_counterStore 1
  rw [eventAt, vacant] at held
  cases held

end VmFileBackedPersistentActorStore

end Terlan.PersistentActorStore
