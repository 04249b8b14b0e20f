/-
  Directory of actors: reusable slots with a generation each, the mailbox of a cell, and the
  operations that need exclusive access to the directory. `WellFormed` is what they keep;
  each has one lemma that says what it can do to the cells (`insert_cases`, `reclaim_cases`,
  and so on).
-/
import Terlan.ActorDirectory.State

namespace Terlan.ActorDirectory

open Terlan.Lib List
open Std (ExtTreeMap)
open VmActorDirectoryError

variable {τ π : Type}

/-! ## Mailbox and cell -/

def actorMailboxCapacity : Nat := 1024

/-- State of the park and wake handshake. -/
inductive WakeState where
  | active
  | parking
  | parked
  | notified
deriving DecidableEq

/-- What the scheduler has to do after a publication. -/
inductive VmMailboxWake where
  | observed
  | enqueue
deriving DecidableEq

structure VmActorPublication where
  handle : VmActorHandle
  sequence : UInt64
deriving DecidableEq

structure VmPublishedFragment (π : Type) where
  publication : VmActorPublication
  payload : π

structure VmActorMailbox (π : Type) where
  queue : List (VmPublishedFragment π)
  admitted : Nat
  nextSequence : UInt64
  wakeState : WakeState

def VmActorMailbox.new : VmActorMailbox π := ⟨[], 0, 0, .active⟩

structure VmActorCell (τ π : Type) where
  handle : VmActorHandle
  state : UInt64
  lookupPins : Nat
  mailbox : VmActorMailbox π
  value : τ

def VmActorCell.new (handle : VmActorHandle) (value : τ) : VmActorCell τ π where
  handle := handle
  state := packState .yielding handle.actorGeneration 0 0
  lookupPins := 0
  mailbox := .new
  value := value

/-- Confirms that a token still names the active owner. -/
def validateToken (cell : VmActorCell τ π) (token : VmActorMutatorToken) :
    Except VmActorDirectoryError Unit := do
  let state ← unpackState cell.state
  failIf (state.lifecycle ≠ token.lifecycle ∨ state.owner ≠ token.owner ∨
    state.ownerGeneration ≠ token.ownerGeneration ∨
    state.actorGeneration ≠ token.handle.actorGeneration) staleMutator

/-- The check and the new word of a transition that needs an unowned actor. -/
def transitionUnowned (allowed : List VmActorLifecycle) (next : VmActorLifecycle)
    (word : UInt64) : Except VmActorDirectoryError UInt64 := do
  let before ← unpackState word
  failIf (before.owner ≠ 0) (alreadyOwned before.owner before.ownerGeneration)
  failIf (before.lifecycle ∉ allowed) (invalidTransition before.lifecycle next)
  pure (packState next before.actorGeneration before.ownerGeneration 0)

/-! ## Directory -/

structure VmActorSlot (τ π : Type) where
  generation : UInt64
  cell : Option (VmActorCell τ π)

/-- The vector `free_slots` with its last entry first. -/
structure VmActorDirectory (τ π : Type) where
  slots : List (VmActorSlot τ π)
  freeSlots : List Nat
  actorSlots : ExtTreeMap VmProcessId Nat

namespace VmActorDirectory

def new : VmActorDirectory τ π := ⟨[], [], ∅⟩

def cellAt (self : VmActorDirectory τ π) (slot : Nat) : Option (VmActorCell τ π) :=
  self.slots[slot]?.bind (·.cell)

def generationAt (self : VmActorDirectory τ π) (slot : Nat) : UInt64 :=
  (self.slots[slot]?.map (·.generation)).getD 0

/-- The state words of all cells. -/
def words (self : VmActorDirectory τ π) : List (Option UInt64) :=
  self.slots.map fun entry => entry.cell.map (·.state)

/-- Resolves a process identity to its current cell. -/
def cell (self : VmActorDirectory τ π) (pid : VmProcessId) :
    Except VmActorDirectoryError (VmActorCell τ π) :=
  match self.actorSlots[pid]? with
  | none => .error (missingActor pid)
  | some slot =>
    match self.cellAt slot with
    | none => .error (missingActor pid)
    | some cell => .ok cell

/-- Resolves a qualified handle. -/
def cellForHandle (self : VmActorDirectory τ π) (handle : VmActorHandle) :
    Except VmActorDirectoryError (VmActorCell τ π) :=
  match self.cellAt handle.slot with
  | none => .error (staleHandle handle)
  | some cell => if cell.handle = handle then .ok cell else .error (staleHandle handle)

def lifecycle (self : VmActorDirectory τ π) (pid : VmProcessId) :
    Except VmActorDirectoryError VmActorLifecycle := do
  let cell ← self.cell pid
  let state ← unpackState cell.state
  pure state.lifecycle

/-- A reference to a cell is used to change it. -/
def setCell (self : VmActorDirectory τ π) (cell : VmActorCell τ π) : VmActorDirectory τ π :=
  { self with
    slots := self.slots.modify cell.handle.slot fun entry => { entry with cell := some cell } }

/-! ### Operations with exclusive access -/

/-- The slot the next insertion takes: the free one on top, or a new one. -/
def nextSlot (self : VmActorDirectory τ π) : Nat := self.freeSlots.headD self.slots.length

def takeSlot (self : VmActorDirectory τ π) :
    Except VmActorDirectoryError (Nat × VmActorDirectory τ π) :=
  match self.freeSlots with
  | slot :: rest => .ok (slot, { self with freeSlots := rest })
  | [] =>
    if self.slots.length < 2 ^ 32 then
      .ok (self.slots.length, { self with slots := self.slots ++ [⟨0, none⟩] })
    else .error slotCapacityExceeded

/-- Puts a new cell into a taken slot. -/
def occupy (self : VmActorDirectory τ π) (pid : VmProcessId) (slot : Nat) (value : τ) :
    VmActorHandle × VmActorDirectory τ π :=
  let handle := ⟨pid, slot, nextGeneration (self.generationAt slot)⟩
  (handle,
    { self with
      slots := self.slots.modify slot fun entry =>
        { generation := nextGeneration entry.generation
          cell := some (VmActorCell.new handle value) }
      actorSlots := self.actorSlots.insert pid slot })

/-- `import_transferred` takes the same steps. -/
def insert (self : VmActorDirectory τ π) (pid : VmProcessId) (value : τ) :
    VmActorDirectory τ π × Except VmActorDirectoryError VmActorHandle :=
  if self.actorSlots.contains pid then
    (self, do
      let lifecycle ← self.lifecycle pid
      throw (invalidTransition lifecycle .yielding))
  else
    match self.takeSlot with
    | .error e => (self, .error e)
    | .ok (slot, taken) =>
      let (handle, self') := taken.occupy pid slot value
      (self', .ok handle)

/-- `transition_unowned` where nobody else has access: its compare-exchange succeeds. -/
def transition (self : VmActorDirectory τ π) (pid : VmProcessId)
    (allowed : List VmActorLifecycle) (next : VmActorLifecycle) :
    VmActorDirectory τ π × Except VmActorDirectoryError Unit :=
  match self.cell pid with
  | .error e => (self, .error e)
  | .ok cell =>
    match transitionUnowned allowed next cell.state with
    | .error e => (self, .error e)
    | .ok after => (self.setCell { cell with state := after }, .ok ())

def markExiting (self : VmActorDirectory τ π) (pid : VmProcessId) :
    VmActorDirectory τ π × Except VmActorDirectoryError Unit :=
  match self.lifecycle pid with
  | .error e => (self, .error e)
  | .ok lifecycle =>
    if lifecycle = .exiting then (self, .ok ())
    else self.transition pid [.queued, .yielding, .parked, .migrating] .exiting

def beginMigration (self : VmActorDirectory τ π) (pid : VmProcessId) :
    VmActorDirectory τ π × Except VmActorDirectoryError Unit :=
  self.transition pid [.queued, .yielding, .parked] .migrating

def markRetired (self : VmActorDirectory τ π) (pid : VmProcessId) :
    VmActorDirectory τ π × Except VmActorDirectoryError Unit :=
  self.transition pid [.exiting] .retired

/-- Empties a slot and makes it the next to be reused. -/
def vacate (self : VmActorDirectory τ π) (pid : VmProcessId) (slot : Nat) :
    VmActorDirectory τ π where
  slots := self.slots.modify slot fun entry => { entry with cell := none }
  freeSlots := slot :: self.freeSlots
  actorSlots := self.actorSlots.erase pid

/-- Reclaims a retired cell. Nobody can see the word that `reclaim` stores last. -/
def reclaim (self : VmActorDirectory τ π) (pid : VmProcessId) :
    VmActorDirectory τ π × Except VmActorDirectoryError τ :=
  let admitted := do
    let cell ← self.cell pid
    let state ← unpackState cell.state
    failIf (state.lifecycle ≠ VmActorLifecycle.retired) (invalidTransition state.lifecycle .reclaimed)
    failIf (cell.lookupPins ≠ 0) (lookupPinned cell.lookupPins)
    pure cell
  match admitted with
  | .error e => (self, .error e)
  | .ok cell => (self.vacate pid cell.handle.slot, .ok cell.value)

/-- Takes an unowned actor out of the directory. -/
def detachForTransfer (self : VmActorDirectory τ π) (pid : VmProcessId) :
    VmActorDirectory τ π × Except VmActorDirectoryError τ :=
  let admitted := do
    let cell ← self.cell pid
    let state ← unpackState cell.state
    failIf (state.owner ≠ 0) (alreadyOwned state.owner state.ownerGeneration)
    failIf (state.lifecycle ∉ [VmActorLifecycle.queued, .yielding, .parked, .migrating])
      (invalidTransition state.lifecycle .migrating)
    failIf (cell.lookupPins ≠ 0) (lookupPinned cell.lookupPins)
    failIf (cell.mailbox.queue.length ≠ 0)
      (transferMailboxNotDrained cell.mailbox.queue.length)
    pure cell
  match admitted with
  | .error e => (self, .error e)
  | .ok cell => (self.vacate pid cell.handle.slot, .ok cell.value)

/-! ## Lookups -/

variable {self : VmActorDirectory τ π} {cell : VmActorCell τ π}

theorem cell_ok_iff {pid : VmProcessId} : self.cell pid = .ok cell ↔
      ∃ slot, self.actorSlots[pid]? = some slot ∧ self.cellAt slot = some cell := by
  unfold VmActorDirectory.cell
  split
  next missing => simp [missing]
  next slot indexed =>
    split
    next empty => simp [indexed, empty]
    next other found => simp [indexed, found]

theorem cellForHandle_ok_iff {handle : VmActorHandle} : self.cellForHandle handle = .ok cell ↔
      self.cellAt handle.slot = some cell ∧ cell.handle = handle := by
  unfold cellForHandle
  split
  next empty => simp [empty]
  next other found =>
    rw [found, Option.some_inj]
    split
    next same => exact ⟨fun eq => by cases eq; exact ⟨rfl, same⟩, fun h => by rw [h.1]⟩
    next differs => exact iff_of_false (fun h => by cases h) fun h => differs (h.1 ▸ h.2)

theorem cellAt_eq_some_iff {slot : Nat} :
    self.cellAt slot = some cell ↔ ∃ entry, self.slots[slot]? = some entry ∧
      entry.cell = some cell := by
  unfold cellAt
  rw [Option.bind_eq_some_iff]

theorem getElem?_modify_eq {α : Type} (l : List α) (i j : Nat) (f : α → α) :
    (l.modify i f)[j]? = if j = i then l[j]?.map f else l[j]? := by
  rw [getElem?_modify]
  by_cases own : j = i
  · rw [if_pos own]
    cases l[j]? <;> simp [own]
  · have other : ¬ i = j := fun same => own same.symm
    rw [if_neg own]
    cases l[j]? <;> simp [other]

theorem cellAt_setCell {old cell : VmActorCell τ π}
    (found : self.cellAt cell.handle.slot = some old) (slot : Nat) :
    (self.setCell cell).cellAt slot =
      if slot = cell.handle.slot then some cell else self.cellAt slot := by
  obtain ⟨entry, inside, _⟩ := cellAt_eq_some_iff.mp found
  unfold setCell cellAt
  rw [getElem?_modify_eq]
  by_cases own : slot = cell.handle.slot
  · rw [if_pos own, if_pos own, own, inside]
    rfl
  · rw [if_neg own, if_neg own]

theorem generationAt_setCell (self : VmActorDirectory τ π) (cell : VmActorCell τ π)
    (slot : Nat) : (self.setCell cell).generationAt slot = self.generationAt slot := by
  unfold setCell generationAt
  rw [getElem?_modify_eq]
  split
  next => cases self.slots[slot]? <;> rfl
  next => rfl

theorem cellAt_vacate (self : VmActorDirectory τ π) (pid : VmProcessId) (slot place : Nat) :
    (self.vacate pid slot).cellAt place = if place = slot then none else self.cellAt place := by
  unfold vacate cellAt
  rw [getElem?_modify_eq]
  by_cases own : place = slot
  · rw [if_pos own, if_pos own]
    cases self.slots[place]? <;> rfl
  · rw [if_neg own, if_neg own]

theorem generationAt_vacate (self : VmActorDirectory τ π) (pid : VmProcessId)
    (slot place : Nat) : (self.vacate pid slot).generationAt place = self.generationAt place := by
  unfold vacate generationAt
  rw [getElem?_modify_eq]
  split
  next => cases self.slots[place]? <;> rfl
  next => rfl

/-! ## Well-formed directories -/

/-- Identities and occupied slots belong together, and the free slots are empty. -/
structure WellFormed (directory : VmActorDirectory τ π) : Prop where
  indexed : ∀ pid slot, directory.actorSlots[pid]? = some slot →
    ∃ cell, directory.cellAt slot = some cell ∧ cell.handle.pid = pid
  occupied : ∀ slot cell, directory.cellAt slot = some cell →
    cell.handle.slot = slot ∧ directory.actorSlots[cell.handle.pid]? = some slot
  qualified : ∀ slot cell, directory.cellAt slot = some cell →
    cell.handle.actorGeneration = directory.generationAt slot
  free : ∀ slot ∈ directory.freeSlots, slot < directory.slots.length ∧ directory.cellAt slot = none
  distinct : directory.freeSlots.Nodup

theorem WellFormed.cell_ok_iff (h : self.WellFormed) {pid : VmProcessId} :
    self.cell pid = .ok cell ↔
      self.cellAt cell.handle.slot = some cell ∧ cell.handle.pid = pid := by
  rw [VmActorDirectory.cell_ok_iff]
  constructor
  · rintro ⟨slot, indexed, found⟩
    obtain ⟨place, back⟩ := h.occupied slot cell found
    obtain ⟨other, found', named⟩ := h.indexed pid slot indexed
    rw [found] at found'
    cases found'
    rw [place]
    exact ⟨found, named⟩
  · rintro ⟨found, named⟩
    have back := (h.occupied _ cell found).2
    rw [named] at back
    exact ⟨_, back, found⟩

theorem new_wellFormed : (new : VmActorDirectory τ π).WellFormed where
  indexed pid slot h := by
    have empty : (∅ : ExtTreeMap VmProcessId Nat)[pid]? = none := ExtTreeMap.getElem?_empty
    have found : (∅ : ExtTreeMap VmProcessId Nat)[pid]? = some slot := h
    rw [empty] at found
    cases found
  occupied slot cell h := by
    cases slot <;> cases h
  qualified slot cell h := by
    cases slot <;> cases h
  free slot h := by cases h
  distinct := nodup_nil

/-- A cell is replaced by one with its handle. -/
theorem WellFormed.setCell (h : self.WellFormed)
    {old cell : VmActorCell τ π} (found : self.cellAt cell.handle.slot = some old)
    (same : cell.handle = old.handle) : (self.setCell cell).WellFormed where
  indexed pid slot indexed := by
    obtain ⟨other, found', named⟩ := h.indexed pid slot indexed
    rw [cellAt_setCell found]
    by_cases own : slot = cell.handle.slot
    · rw [if_pos own]
      rw [own, found] at found'
      cases found'
      exact ⟨cell, rfl, by rw [same, named]⟩
    · rw [if_neg own]
      exact ⟨other, found', named⟩
  occupied slot other found' := by
    rw [cellAt_setCell found] at found'
    by_cases own : slot = cell.handle.slot
    · rw [if_pos own] at found'
      cases found'
      have back := (h.occupied _ old found).2
      rw [← same, ← own] at back
      exact ⟨own.symm, back⟩
    · rw [if_neg own] at found'
      exact h.occupied slot other found'
  qualified slot other found' := by
    rw [cellAt_setCell found] at found'
    rw [generationAt_setCell]
    by_cases own : slot = cell.handle.slot
    · rw [if_pos own] at found'
      cases found'
      rw [same, own]
      exact h.qualified _ old found
    · rw [if_neg own] at found'
      exact h.qualified slot other found'
  free slot mem := by
    obtain ⟨inside, empty⟩ := h.free slot mem
    refine ⟨by simpa [VmActorDirectory.setCell] using inside, ?_⟩
    rw [cellAt_setCell found, if_neg]
    · exact empty
    · rintro rfl
      rw [found] at empty
      cases empty
  distinct := h.distinct

theorem WellFormed.vacate (h : self.WellFormed) (found : self.cellAt cell.handle.slot = some cell) :
    (self.vacate cell.handle.pid cell.handle.slot).WellFormed where
  indexed pid slot indexed := by
    have erased : (self.actorSlots.erase cell.handle.pid)[pid]? = some slot := indexed
    rw [getElem?_erase_eq] at erased
    by_cases own : cell.handle.pid = pid
    · rw [if_pos own] at erased
      cases erased
    rw [if_neg own] at erased
    obtain ⟨other, found', named⟩ := h.indexed pid slot erased
    refine ⟨other, ?_, named⟩
    rw [cellAt_vacate, if_neg]
    · exact found'
    · rintro rfl
      rw [found] at found'
      cases found'
      exact own named
  occupied slot other found' := by
    rw [cellAt_vacate] at found'
    by_cases own : slot = cell.handle.slot
    · rw [if_pos own] at found'
      cases found'
    rw [if_neg own] at found'
    obtain ⟨place, back⟩ := h.occupied slot other found'
    refine ⟨place, ?_⟩
    change (self.actorSlots.erase cell.handle.pid)[other.handle.pid]? = some slot
    rw [getElem?_erase_eq, if_neg]
    · exact back
    · intro same
      rw [← same, (h.occupied _ cell found).2] at back
      cases back
      exact own rfl
  qualified slot other found' := by
    rw [cellAt_vacate] at found'
    rw [generationAt_vacate]
    by_cases own : slot = cell.handle.slot
    · rw [if_pos own] at found'
      cases found'
    · rw [if_neg own] at found'
      exact h.qualified slot other found'
  free slot mem := by
    obtain ⟨entry, inside, _⟩ := cellAt_eq_some_iff.mp found
    have bound := (List.getElem?_eq_some_iff.mp inside).1
    rw [cellAt_vacate]
    rcases mem_cons.mp mem with rfl | mem
    · exact ⟨by simpa [VmActorDirectory.vacate] using bound, if_pos rfl⟩
    · obtain ⟨inside', empty⟩ := h.free slot mem
      refine ⟨by simpa [VmActorDirectory.vacate] using inside', ?_⟩
      rw [empty, ite_self]
  distinct := by
    refine nodup_cons.mpr ⟨fun mem => ?_, h.distinct⟩
    have empty := (h.free _ mem).2
    rw [found] at empty
    cases empty

/-! ## What the exclusive operations do -/

/-- An operation moves an unowned actor to another lifecycle, empties a slot, or changes
nothing. -/
inductive Rearranges (before : VmActorDirectory τ π) : VmActorDirectory τ π → Prop where
  | unchanged : Rearranges before before
  | moved {cell : VmActorCell τ π} {allowed : List VmActorLifecycle} {next : VmActorLifecycle}
      {after : UInt64} (found : before.cellAt cell.handle.slot = some cell)
      (move : transitionUnowned allowed next cell.state = .ok after) (awake : next ≠ .parked) :
      Rearranges before (before.setCell { cell with state := after })
  | vacated {cell : VmActorCell τ π} (found : before.cellAt cell.handle.slot = some cell) :
      Rearranges before (before.vacate cell.handle.pid cell.handle.slot)

/-- One of these operations, refused without a trace. -/
def Operates {α : Type} (before : VmActorDirectory τ π)
    (result : VmActorDirectory τ π × Except VmActorDirectoryError α) : Prop :=
  Rearranges before result.1 ∧ ∀ e, result.2 = .error e → result.1 = before

theorem operates_refused {α : Type} (self : VmActorDirectory τ π) (e : VmActorDirectoryError) :
    Operates (α := α) self (self, .error e) :=
  ⟨.unchanged, fun _ _ => rfl⟩

theorem WellFormed.transition (h : self.WellFormed)
    (pid : VmProcessId) (allowed : List VmActorLifecycle) {next : VmActorLifecycle}
    (awake : next ≠ .parked) : Operates self (self.transition pid allowed next) := by
  unfold VmActorDirectory.transition
  split
  next e _ => exact operates_refused self e
  next cell resolved =>
    split
    next e _ => exact operates_refused self e
    next after move =>
      exact ⟨.moved (h.cell_ok_iff.mp resolved).1 move awake, fun _ err => by cases err⟩

theorem WellFormed.markExiting (h : self.WellFormed)
    (pid : VmProcessId) : Operates self (self.markExiting pid) := by
  unfold VmActorDirectory.markExiting
  split
  next e _ => exact operates_refused self e
  next lifecycle _ =>
    split
    next => exact ⟨.unchanged, fun _ _ => rfl⟩
    next => exact h.transition pid _ (by decide)

theorem WellFormed.reclaim (h : self.WellFormed)
    (pid : VmProcessId) : Operates self (self.reclaim pid) := by
  unfold VmActorDirectory.reclaim
  dsimp only
  split
  next e _ => exact operates_refused self e
  next cell admitted =>
    obtain ⟨cell', resolved, rest⟩ := except_bind_ok_iff.mp admitted
    obtain ⟨state, _, checks⟩ := except_bind_ok_iff.mp rest
    obtain ⟨_, checks⟩ := check_bind_ok_iff.mp checks
    obtain ⟨_, same⟩ := check_bind_ok_iff.mp checks
    cases same
    obtain ⟨found, named⟩ := h.cell_ok_iff.mp resolved
    rw [← named]
    exact ⟨.vacated found, fun _ err => by cases err⟩

theorem WellFormed.detachForTransfer (h : self.WellFormed)
    (pid : VmProcessId) : Operates self (self.detachForTransfer pid) := by
  unfold VmActorDirectory.detachForTransfer
  dsimp only
  split
  next e _ => exact operates_refused self e
  next cell admitted =>
    obtain ⟨cell', resolved, rest⟩ := except_bind_ok_iff.mp admitted
    obtain ⟨state, _, checks⟩ := except_bind_ok_iff.mp rest
    obtain ⟨_, checks⟩ := check_bind_ok_iff.mp checks
    obtain ⟨_, checks⟩ := check_bind_ok_iff.mp checks
    obtain ⟨_, checks⟩ := check_bind_ok_iff.mp checks
    obtain ⟨_, same⟩ := check_bind_ok_iff.mp checks
    cases same
    obtain ⟨found, named⟩ := h.cell_ok_iff.mp resolved
    rw [← named]
    exact ⟨.vacated found, fun _ err => by cases err⟩

theorem Rearranges.wellFormed {before after : VmActorDirectory τ π}
    (step : Rearranges before after) (h : before.WellFormed) : after.WellFormed := by
  cases step with
  | unchanged => exact h
  | moved found move awake => exact h.setCell found rfl
  | vacated found => exact h.vacate found

/-! ### Insertion -/

theorem takeSlot_cases {self taken : VmActorDirectory τ π} {slot : Nat} (h : self.WellFormed)
    (run : self.takeSlot = .ok (slot, taken)) :
    slot = self.nextSlot ∧ slot < taken.slots.length ∧ self.cellAt slot = none ∧
      slot ∉ taken.freeSlots ∧ taken.actorSlots = self.actorSlots ∧
      (∀ place, taken.cellAt place = self.cellAt place) ∧
      (∀ place, taken.generationAt place = self.generationAt place) ∧
      (∀ place ∈ taken.freeSlots, place < taken.slots.length ∧ self.cellAt place = none) ∧
      taken.freeSlots.Nodup := by
  unfold takeSlot at run
  split at run
  next top rest free =>
    cases run
    have mem : slot ∈ self.freeSlots := by rw [free]; exact mem_cons_self
    have nodup := h.distinct
    rw [free] at nodup
    obtain ⟨fresh, nodup⟩ := nodup_cons.mp nodup
    refine ⟨?_, (h.free slot mem).1, (h.free slot mem).2, fresh, rfl, fun _ => rfl, fun _ => rfl,
      fun place mem => h.free place ?_, nodup⟩
    · rw [nextSlot, free]
      rfl
    · rw [free]
      exact mem_cons_of_mem slot mem
  next free =>
    split at run
    next room =>
      cases run
      have beyond : self.slots[self.slots.length]? = none := getElem?_eq_none (Nat.le_refl _)
      have entry : ∀ place, (self.slots ++ [⟨0, none⟩])[place]? =
          if place = self.slots.length then some ⟨0, none⟩ else self.slots[place]? := by
        intro place
        rw [getElem?_append]
        by_cases inside : place < self.slots.length
        · rw [if_pos inside, if_neg (by omega)]
        rw [if_neg inside]
        by_cases own : place = self.slots.length
        · rw [if_pos own, own, Nat.sub_self]
          rfl
        · rw [if_neg own, getElem?_eq_none (by simp; omega),
            getElem?_eq_none (by omega)]
      refine ⟨?_, by simp, ?_, ?_, rfl, fun place => ?_, fun place => ?_, ?_, ?_⟩
      · rw [nextSlot, free]
        rfl
      · rw [cellAt, beyond]
        rfl
      · rw [free]
        exact not_mem_nil
      · unfold cellAt
        rw [entry]
        split
        next own => rw [own, beyond]; rfl
        next => rfl
      · unfold generationAt
        rw [entry]
        split
        next own => rw [own, beyond]; rfl
        next => rfl
      · rw [free]
        intro place mem
        cases mem
      · rw [free]
        exact nodup_nil
    next => cases run

/-- An insertion is refused and changes nothing, or puts a new cell into the next slot. -/
theorem WellFormed.insert_cases (h : self.WellFormed) (pid : VmProcessId) (value : τ) :
    (∃ e, self.insert pid value = (self, .error e)) ∨
      ∃ after, self.insert pid value = (after, .ok
          ⟨pid, self.nextSlot, nextGeneration (self.generationAt self.nextSlot)⟩) ∧
        self.actorSlots[pid]? = none ∧ self.cellAt self.nextSlot = none ∧ after.WellFormed ∧
        (∀ place, after.cellAt place = if place = self.nextSlot then
          some (.new ⟨pid, self.nextSlot, nextGeneration (self.generationAt self.nextSlot)⟩ value)
          else self.cellAt place) ∧
        ∀ place, after.generationAt place = if place = self.nextSlot then
          nextGeneration (self.generationAt self.nextSlot) else self.generationAt place := by
  unfold VmActorDirectory.insert
  split
  next present =>
    left
    cases resolved : self.lifecycle pid with
    | error e => exact ⟨e, rfl⟩
    | ok lifecycle => exact ⟨_, rfl⟩
  next absent =>
    have unknown : self.actorSlots[pid]? = none := by
      exact ExtTreeMap.getElem?_eq_none fun mem => absent (ExtTreeMap.contains_iff_mem.mpr mem)
    split
    next e _ => exact .inl ⟨e, rfl⟩
    next slot taken run =>
      right
      obtain ⟨rfl, inside, empty, fresh, index, cells, generations, free, nodup⟩ :=
        takeSlot_cases h run
      have cellsAfter : ∀ place, (taken.occupy pid self.nextSlot value).2.cellAt place =
          if place = self.nextSlot then some (.new ⟨pid, self.nextSlot,
            nextGeneration (self.generationAt self.nextSlot)⟩ value) else self.cellAt place := by
        intro place
        unfold occupy cellAt
        rw [getElem?_modify_eq, generations]
        by_cases own : place = self.nextSlot
        · rw [if_pos own, if_pos own, own, getElem?_eq_getElem inside]
          rfl
        · rw [if_neg own, if_neg own]
          exact cells place
      have generationsAfter : ∀ place,
          (taken.occupy pid self.nextSlot value).2.generationAt place =
            if place = self.nextSlot then nextGeneration (self.generationAt self.nextSlot)
            else self.generationAt place := by
        intro place
        rw [← generations, ← generations]
        unfold occupy generationAt
        rw [getElem?_modify_eq]
        by_cases own : place = self.nextSlot
        · rw [if_pos own, if_pos own, own, getElem?_eq_getElem inside]
          rfl
        · rw [if_neg own, if_neg own]
      have indexAfter : ∀ other, (taken.occupy pid self.nextSlot value).2.actorSlots[other]? =
          if pid = other then some self.nextSlot else self.actorSlots[other]? := by
        intro other
        change (taken.actorSlots.insert pid self.nextSlot)[other]? = _
        rw [getElem?_insert_eq, index]
      refine ⟨_, by rw [occupy, generations], unknown, empty, ?_, cellsAfter, generationsAfter⟩
      refine
        { indexed := fun other place indexed => ?_
          occupied := fun place cell found => ?_
          qualified := fun place cell found => ?_
          free := fun place mem => ?_
          distinct := nodup }
      · rw [indexAfter] at indexed
        rw [cellsAfter]
        by_cases own : pid = other
        · rw [if_pos own] at indexed
          cases indexed
          exact ⟨_, if_pos rfl, own⟩
        rw [if_neg own] at indexed
        obtain ⟨cell, found, named⟩ := h.indexed other place indexed
        refine ⟨cell, ?_, named⟩
        rw [if_neg]
        · exact found
        · rintro rfl
          rw [empty] at found
          cases found
      · rw [cellsAfter] at found
        rw [indexAfter]
        by_cases own : place = self.nextSlot
        · rw [if_pos own] at found
          cases found
          exact ⟨own.symm, by rw [own]; exact if_pos rfl⟩
        rw [if_neg own] at found
        obtain ⟨located, back⟩ := h.occupied place cell found
        refine ⟨located, ?_⟩
        rw [if_neg]
        · exact back
        · rintro rfl
          rw [unknown] at back
          cases back
      · rw [cellsAfter] at found
        rw [generationsAfter]
        by_cases own : place = self.nextSlot
        · rw [if_pos own] at found ⊢
          cases found
          rfl
        · rw [if_neg own] at found ⊢
          exact h.qualified place cell found
      · obtain ⟨bound, vacant⟩ := free place mem
        refine ⟨by simpa [occupy] using bound, ?_⟩
        rw [cellsAfter, if_neg]
        · exact vacant
        · rintro rfl
          exact fresh mem

end VmActorDirectory

end Terlan.ActorDirectory
