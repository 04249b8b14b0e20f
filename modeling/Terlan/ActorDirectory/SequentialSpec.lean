/-
  What the methods of `Sequential` do to a sound directory. Each changes the cell of one
  identity and no other (`cell_setCell`), and a method that was refused has changed nothing.
  Under a control grant the word of the cell is `lent`; giving the grant back leaves the word
  `relinquished`, which differs from the first in the generation of the grant only.
-/
import Terlan.ActorDirectory.Ownership
import Terlan.ActorDirectory.Sequential

namespace Terlan.ActorDirectory

open Terlan.Lib VmActorLifecycle List
open VmActorDirectoryError

variable {τ π α : Type}

/-! ## Sound cells -/

namespace VmActorCell

/-- The fields of the state word. -/
def current (cell : VmActorCell τ π) : VmActorState :=
  match unpackState cell.state with
  | .ok state => state
  | .error _ => ⟨.reclaimed, 0, 0, 0⟩

/-- A cell between the calls of one caller: its admissions are the fragments in its queue, and
it has an owner exactly while it executes. -/
structure Sound (cell : VmActorCell τ π) : Prop where
  readable : unpackState cell.state = .ok cell.current
  named : cell.current.actorGeneration = cell.handle.actorGeneration
  counted : cell.mailbox.admitted = cell.mailbox.queue.length
  bounded : cell.mailbox.queue.length ≤ actorMailboxCapacity
  owned : cell.current.owner ≠ 0 ↔ cell.current.lifecycle = .executing
  present : cell.current.lifecycle ∉ [migrating, .reclaimed]

theorem current_eq {cell : VmActorCell τ π} {state : VmActorState}
    (read : unpackState cell.state = .ok state) : cell.current = state := by
  unfold current
  rw [read]

/-- The cell under a control grant to an owner, and the token of the grant. -/
def lent (cell : VmActorCell τ π) (owner : UInt64) : VmActorCell τ π :=
  { cell with
    state := packState cell.current.lifecycle cell.current.actorGeneration
      (nextGeneration cell.current.ownerGeneration) owner }

def loan (cell : VmActorCell τ π) (owner : UInt64) : VmActorMutatorToken :=
  ⟨cell.handle, owner, nextGeneration cell.current.ownerGeneration, cell.current.lifecycle⟩

/-- The word of the cell after a control grant was given back. -/
def relinquished (cell : VmActorCell τ π) : UInt64 :=
  packState cell.current.lifecycle cell.current.actorGeneration
    (nextGeneration cell.current.ownerGeneration) 0

end VmActorCell

theorem nextGeneration_fits {current : UInt64} (small : current.toNat < 2 ^ 20) :
    (nextGeneration current).toNat < 2 ^ 20 := by
  rw [nextGeneration_toNat small]
  split <;> omega

namespace VmActorCell

variable {cell now : VmActorCell τ π} {owner : UInt64}

section

variable (sound : cell.Sound)
include sound

/-- A word of the same actor under another lifecycle without an owner. -/
theorem Sound.reads_unowned (lifecycle : VmActorLifecycle)
    {ownerGeneration : UInt64} (fits : ownerGeneration.toNat < 2 ^ 20) :
    unpackState (packState lifecycle cell.current.actorGeneration ownerGeneration 0) =
      .ok ⟨lifecycle, cell.current.actorGeneration, ownerGeneration, 0⟩ :=
  unpackState_write sound.readable lifecycle fits (by decide)

theorem Sound.unpackState_relinquished :
    unpackState cell.relinquished = .ok { cell.current with
        ownerGeneration := nextGeneration cell.current.ownerGeneration
        owner := 0 } :=
  sound.reads_unowned _ (nextGeneration_fits (unpackState_fits sound.readable).2.1)

/-- A cell whose word has no owner, and whose queue was counted again. -/
theorem Sound.unowned {lifecycle : VmActorLifecycle} {ownerGeneration : UInt64}
    (word : unpackState now.state =
      .ok ⟨lifecycle, cell.current.actorGeneration, ownerGeneration, 0⟩)
    (same : now.handle = cell.handle) (settled : lifecycle ∉ [executing, .migrating, .reclaimed])
    (counted : now.mailbox.admitted = now.mailbox.queue.length)
    (bounded : now.mailbox.queue.length ≤ actorMailboxCapacity) : now.Sound := by
  have current := current_eq word
  simp only [mem_cons, not_mem_nil, or_false, not_or] at settled
  refine ⟨by rw [current, word], by rw [current, same]; exact sound.named, counted, bounded,
    ?_, ?_⟩
  · rw [current]
    simp [settled.1]
  · rw [current]
    simp [settled.2.1, settled.2.2]

/-- A grant of the control plane is refused while the actor executes. -/
theorem Sound.call_acquire_control (owner : UInt64) :
    Method.call (acquire .control owner) cell =
      if cell.current.lifecycle = .executing then
        (cell, .error (alreadyOwned cell.current.owner cell.current.ownerGeneration))
      else (cell.lent owner, .ok (cell.loan owner)) := by
  have present := sound.present
  simp only [mem_cons, not_mem_nil, or_false, not_or] at present
  unfold acquire MutatorKind.grant
  rw [call_get_bind, call_check_bind, sound.readable]
  by_cases busy : cell.current.lifecycle = .executing
  · simp [bind, Except.bind, MutatorKind.admit, failIf, busy]
  have free : cell.current.owner = 0 := not_not.mp fun owned => busy (sound.owned.mp owned)
  have admitted : MutatorKind.control.admit cell.current = .ok cell.current.lifecycle := by
    simp [failIf, MutatorKind.admit, busy, free, present, bind, Except.bind, pure, Except.pure]
  rw [if_neg busy]
  simp only [bind, Except.bind, admitted]
  rfl

/-- The token is good as long as the word is the lent one. -/
theorem Sound.loan_valid (fits : owner.toNat < 2 ^ 20)
    (word : now.state = (cell.lent owner).state) :
    validateToken now (cell.loan owner) = .ok () := by
  rw [validateToken_ok_iff, word, lent, unpackState_write sound.readable _
    (nextGeneration_fits (unpackState_fits sound.readable).2.1) fits, sound.named]
  rfl

theorem Sound.call_withMutator (fits : owner.toNat < 2 ^ 20)
    (mutate : τ → τ × α) : Method.call (withMutator (cell.loan owner) mutate) (cell.lent owner) =
      ({ cell.lent owner with value := (mutate cell.value).1 }, .ok (mutate cell.value).2) := by
  unfold withMutator
  rw [call_get_bind, call_check_bind, sound.loan_valid fits rfl]
  rfl

end

/-- What the fragments of the queue make of the value. -/
def integrated (cell : VmActorCell τ π) (integrate : τ → VmActorPublication → π → τ) : τ :=
  cell.mailbox.queue.foldl
    (fun value fragment => integrate value fragment.publication fragment.payload) cell.value

theorem Sound.call_drainPublications (sound : cell.Sound) (fits : owner.toNat < 2 ^ 20)
    (integrate : τ → VmActorPublication → π → τ) :
    Method.call (drainPublications (cell.loan owner) integrate) (cell.lent owner) =
      ({ cell.lent owner with mailbox := cell.mailbox.drain, value := cell.integrated integrate },
        .ok cell.mailbox.queue.length) := by
  unfold drainPublications
  rw [call_get_bind, call_check_bind, sound.loan_valid fits rfl]
  rfl

/-- The grant is given back from a cell whose word is still the lent one. -/
theorem Sound.call_releaseControlMutator (sound : cell.Sound) (fits : owner.toNat < 2 ^ 20)
    (word : now.state = (cell.lent owner).state) :
    Method.call (releaseControlMutator (cell.loan owner)) now =
      ({ now with state := cell.relinquished }, .ok ()) := by
  have valid := sound.loan_valid fits word
  have read := validateToken_ok_iff.mp valid
  unfold releaseControlMutator
  rw [call_get_bind, call_check_bind, valid]
  dsimp only
  rw [call_check_bind, read]
  dsimp only
  rw [call_modify, relinquished, sound.named]
  rfl

/-- A cell after one control grant that changed its value and perhaps drained its queue. -/
theorem Sound.settled (sound : cell.Sound) (free : cell.current.lifecycle ≠ .executing)
    {mailbox : VmActorMailbox π} (counted : mailbox.admitted = mailbox.queue.length)
    (bounded : mailbox.queue.length ≤ actorMailboxCapacity) (value : τ) :
    VmActorCell.Sound { cell with state := cell.relinquished, mailbox, value } := by
  have present := sound.present
  simp only [mem_cons, not_mem_nil, or_false, not_or] at present
  exact sound.unowned sound.unpackState_relinquished rfl (by simp [free, present]) counted bounded

end VmActorCell

/-! ## Publication -/

namespace VmActorMailbox

/-- The sequence number of the next fragment. -/
def sequence (mailbox : VmActorMailbox π) : UInt64 :=
  if mailbox.nextSequence + 1 = 0 then mailbox.nextSequence else mailbox.nextSequence + 1

/-- The mailbox after a publication. -/
def published (mailbox : VmActorMailbox π) (handle : VmActorHandle) (payload : π) :
    VmActorMailbox π where
  queue := mailbox.queue ++ [⟨⟨handle, mailbox.sequence⟩, payload⟩]
  admitted := mailbox.admitted + 1
  nextSequence := mailbox.nextSequence + 1
  wakeState := .notified

theorem call_publish {mailbox : VmActorMailbox π}
    (counted : mailbox.admitted = mailbox.queue.length) (handle : VmActorHandle) (payload : π) :
    Method.call (publish handle payload) mailbox =
      if mailbox.queue.length < actorMailboxCapacity then
        (mailbox.published handle payload, .ok (⟨handle, mailbox.sequence⟩,
          if mailbox.wakeState = .parked then .enqueue else .observed))
      else (mailbox, .error (mailboxFull handle)) := by
  unfold publish
  rw [call_get_bind, call_check_bind, counted]
  by_cases room : mailbox.queue.length < actorMailboxCapacity
  · rw [failIf, if_neg (not_not.mpr room), if_pos room]
    dsimp only
    rw [call_modify_bind, call_check_bind]
    dsimp only
    rw [call_modify_bind, call_pure, published, sequence]
  · rw [failIf, if_pos room, if_neg room]

end VmActorMailbox

namespace VmActorCell

variable {cell : VmActorCell τ π}

/-- Why a publication to the cell is refused. -/
def publishable (cell : VmActorCell τ π) : Except VmActorDirectoryError Unit := do
  failIf (cell.current.lifecycle ∈ [exiting, .retired, .reclaimed])
    (invalidTransition cell.current.lifecycle cell.current.lifecycle)
  failIf (¬ cell.mailbox.queue.length < actorMailboxCapacity) (mailboxFull cell.handle)

/-- The cell with a fragment more in its mailbox. -/
def notified (cell : VmActorCell τ π) (payload : π) : VmActorCell τ π :=
  { cell with mailbox := cell.mailbox.published cell.handle payload }

/-- The cell of a parked actor that was queued. -/
def awakened (cell : VmActorCell τ π) : VmActorCell τ π :=
  if cell.current.lifecycle = .parked then
    { cell with
      state := packState .queued cell.current.actorGeneration cell.current.ownerGeneration 0 }
  else cell

/-- The cell after a publication. -/
def published (cell : VmActorCell τ π) (payload : π) : VmActorCell τ π :=
  if cell.mailbox.wakeState = .parked then (cell.notified payload).awakened
  else cell.notified payload

section

variable (sound : cell.Sound)
include sound

theorem Sound.free (idle : cell.current.lifecycle ≠ .executing) :
    cell.current.owner = 0 := not_not.mp fun owned => idle (sound.owned.mp owned)

theorem Sound.notified (room : cell.mailbox.queue.length < actorMailboxCapacity) (payload : π) :
    (cell.notified payload).Sound :=
  { sound with
    counted := by simp [VmActorCell.notified, VmActorMailbox.published, sound.counted]
    bounded := by
      simp only [VmActorCell.notified, VmActorMailbox.published, length_append,
        length_singleton]
      omega }

theorem current_awakened : cell.awakened.current =
    if cell.current.lifecycle = .parked then { cell.current with lifecycle := .queued }
    else cell.current := by
  unfold awakened
  split
  next parked =>
    have free := sound.free (by rw [parked]; decide)
    refine (current_eq (unpackState_unowned sound.readable .queued)).trans ?_
    rw [← free]
  next => rfl

theorem Sound.awakened : cell.awakened.Sound := by
  unfold VmActorCell.awakened
  split
  next =>
    exact sound.unowned (unpackState_unowned sound.readable .queued) rfl
      (by decide) sound.counted sound.bounded
  next => exact sound

theorem Sound.call_enqueueParked : Method.call enqueueParked cell =
      (cell.awakened, .ok (decide (cell.current.lifecycle = .parked))) := by
  unfold enqueueParked VmActorCell.awakened
  rw [call_get_bind, call_check_bind, sound.readable]
  dsimp only
  by_cases parked : cell.current.lifecycle = .parked
  · have free := sound.free (by rw [parked]; decide)
    rw [if_pos parked, if_neg (by simp [parked, free]), decide_eq_true parked]
    rfl
  · rw [if_neg parked, if_pos (.inl parked), decide_eq_false parked]
    rfl

theorem Sound.call_publishFragment (payload : π) :
    Method.call (publishFragment payload) cell =
      match cell.publishable with
      | .error e => (cell, .error e)
      | .ok () => (cell.published payload, .ok (⟨cell.handle, cell.mailbox.sequence⟩,
          if cell.mailbox.wakeState = .parked then .enqueue else .observed)) := by
  unfold publishFragment
  rw [call_get_bind, call_check_bind, sound.readable]
  dsimp only
  rw [call_check_bind]
  by_cases closed : cell.current.lifecycle ∈ [VmActorLifecycle.exiting, .retired, .reclaimed]
  · rw [publishable, failIf, if_pos closed]
    rfl
  have rest : cell.publishable = failIf (¬ cell.mailbox.queue.length < actorMailboxCapacity)
      (mailboxFull cell.handle) := by
    rw [publishable, failIf, if_neg closed]
    rfl
  rw [rest, failIf, if_neg closed]
  dsimp only
  rw [call_bind, onMailbox, call_within, VmActorMailbox.call_publish sound.counted]
  by_cases room : cell.mailbox.queue.length < actorMailboxCapacity
  · rw [if_pos room, failIf, if_neg (not_not.mpr room)]
    dsimp only
    by_cases asleep : cell.mailbox.wakeState = .parked
    · have enqueued := (sound.notified room payload).call_enqueueParked
      rw [if_pos asleep, if_pos rfl, call_bind, published, if_pos asleep]
      rw [VmActorCell.notified] at enqueued ⊢
      rw [enqueued]
      rfl
    · rw [if_neg asleep, if_neg (by decide), published, if_neg asleep]
      rfl
  · rw [if_neg room, failIf, if_pos room]

theorem publishable_ok_iff : cell.publishable = .ok () ↔
    cell.current.lifecycle ∉ [exiting, .retired] ∧
      cell.mailbox.queue.length < actorMailboxCapacity := by
  have present := sound.present
  simp only [mem_cons, not_mem_nil, or_false, not_or] at present ⊢
  unfold publishable
  rw [check_bind_ok_iff, failIf_ok_iff, failIf_ok_iff, not_not]
  simp [present.2]

/-- A publication leaves the actor as it was, but for a parked one, which it may queue. -/
theorem Sound.published (room : cell.mailbox.queue.length < actorMailboxCapacity) (payload : π) :
    (cell.published payload).Sound := by
  unfold VmActorCell.published
  split
  next => exact (sound.notified room payload).awakened
  next => exact sound.notified room payload

end

end VmActorCell
/-! ## Execution -/

namespace VmActorCell

variable {cell : VmActorCell τ π} {owner : UInt64} {token : VmActorMutatorToken}

/-- The cell of an actor that executes for an owner. -/
def dispatched (cell : VmActorCell τ π) (owner : UInt64) : VmActorCell τ π :=
  { cell with
    state := packState .executing cell.current.actorGeneration
      (nextGeneration cell.current.ownerGeneration) owner }

theorem Sound.current_dispatched (sound : cell.Sound) (fits : owner.toNat < 2 ^ 20) :
    (cell.dispatched owner).current =
      { cell.current with
        lifecycle := .executing
        ownerGeneration := nextGeneration cell.current.ownerGeneration
        owner } :=
  current_eq (unpackState_write sound.readable .executing
    (nextGeneration_fits (unpackState_fits sound.readable).2.1) fits)

theorem Sound.dispatched (sound : cell.Sound) (positive : owner ≠ 0)
    (fits : owner.toNat < 2 ^ 20) : (cell.dispatched owner).Sound := by
  have current := sound.current_dispatched fits
  refine ⟨?_, ?_, sound.counted, sound.bounded, ?_, ?_⟩
  · rw [current]
    exact unpackState_write sound.readable .executing
      (nextGeneration_fits (unpackState_fits sound.readable).2.1) fits
  · rw [current]
    exact sound.named
  · rw [current]
    simp [positive]
  · rw [current]
    simp

/-- An actor is executed from the queue only. -/
theorem Sound.call_acquire_execution (sound : cell.Sound) (owner : UInt64) :
    (∃ e, Method.call (acquire .execution owner) cell = (cell, .error e)) ∨
      cell.current.lifecycle = .queued ∧
        Method.call (acquire .execution owner) cell = (cell.dispatched owner,
          .ok ⟨cell.handle, owner, nextGeneration cell.current.ownerGeneration, .executing⟩) := by
  unfold acquire MutatorKind.grant
  rw [call_get_bind, call_check_bind, sound.readable]
  by_cases queued : cell.current.lifecycle = .queued
  · right
    have free := sound.free (by rw [queued]; decide)
    have admitted : MutatorKind.execution.admit cell.current = .ok .executing := by
      simp [failIf, MutatorKind.admit, queued, free, bind, Except.bind, pure, Except.pure]
    refine ⟨queued, ?_⟩
    simp only [bind, Except.bind, admitted]
    rfl
  · left
    obtain ⟨e, refused⟩ : ∃ e, MutatorKind.execution.admit cell.current = .error e := by
      unfold MutatorKind.admit failIf
      split
      next => exact ⟨_, rfl⟩
      next =>
        exact ⟨invalidTransition cell.current.lifecycle .executing, rfl⟩
    exact ⟨e, by simp only [bind, Except.bind, refused]⟩

/-- A good token of some owner: its actor executes. -/
theorem Sound.executing_of_valid (sound : cell.Sound) (valid : validateToken cell token = .ok ())
    (positive : token.owner ≠ 0) : cell.current.lifecycle = .executing := by
  have current := current_eq (validateToken_ok_iff.mp valid)
  exact sound.owned.mp (by rw [current]; exact positive)

theorem call_withMutator_cases (cell : VmActorCell τ π) (token : VmActorMutatorToken)
    (mutate : τ → τ × α) : (∃ e, Method.call (withMutator token mutate) cell = (cell, .error e)) ∨
      validateToken cell token = .ok () ∧ Method.call (withMutator token mutate) cell =
        ({ cell with value := (mutate cell.value).1 }, .ok (mutate cell.value).2) := by
  unfold withMutator
  rw [call_get_bind, call_check_bind]
  cases valid : validateToken cell token with
  | error e => exact .inl ⟨e, rfl⟩
  | ok _ => exact .inr ⟨rfl, rfl⟩

theorem call_drainPublications_cases (cell : VmActorCell τ π) (token : VmActorMutatorToken)
    (integrate : τ → VmActorPublication → π → τ) :
    (∃ e, Method.call (drainPublications token integrate) cell = (cell, .error e)) ∨
      validateToken cell token = .ok () ∧ Method.call (drainPublications token integrate) cell =
        ({ cell with mailbox := cell.mailbox.drain, value := cell.integrated integrate },
          .ok cell.mailbox.queue.length) := by
  unfold drainPublications
  rw [call_get_bind, call_check_bind]
  cases valid : validateToken cell token with
  | error e => exact .inl ⟨e, rfl⟩
  | ok _ => exact .inr ⟨rfl, rfl⟩

theorem Sound.drained (sound : cell.Sound) (value : τ) :
    VmActorCell.Sound { cell with mailbox := cell.mailbox.drain, value } :=
  { sound with
    counted := by simp [VmActorMailbox.drain, sound.counted]
    bounded := Nat.zero_le _ }

/-- The cell under a word without an owner, in another state of the handshake. -/
def stored (cell : VmActorCell τ π) (lifecycle : VmActorLifecycle) (wakeState : WakeState) :
    VmActorCell τ π :=
  { cell with
    state := packState lifecycle cell.current.actorGeneration cell.current.ownerGeneration 0
    mailbox := { cell.mailbox with wakeState } }

theorem Sound.current_stored (sound : cell.Sound) (lifecycle : VmActorLifecycle)
    (wakeState : WakeState) :
    (cell.stored lifecycle wakeState).current = { cell.current with lifecycle, owner := 0 } :=
  current_eq (unpackState_unowned sound.readable lifecycle)

/-- What a release does. -/
def Released (cell now : VmActorCell τ π) : Prop :=
  ∃ lifecycle wakeState, lifecycle ∈ [queued, .yielding, .parked, .exiting] ∧
    now = cell.stored lifecycle wakeState

theorem Sound.released (sound : cell.Sound) {now : VmActorCell τ π} (h : cell.Released now) :
    now.Sound ∧ now.current.lifecycle ∈ [queued, .yielding, .parked, .exiting] := by
  obtain ⟨lifecycle, wakeState, settled, rfl⟩ := h
  refine ⟨sound.unowned (unpackState_unowned sound.readable lifecycle) rfl ?_ sound.counted
    sound.bounded, ?_⟩
  · revert settled
    cases lifecycle <;> decide
  · rw [sound.current_stored]
    exact settled

theorem call_preparePark (mailbox : VmActorMailbox π) :
    ∃ wakeState ready, Method.call VmActorMailbox.preparePark mailbox =
      ({ mailbox with wakeState }, .ok ready) := by
  unfold VmActorMailbox.preparePark
  rw [call_get_bind, call_ite]
  split
  · exact ⟨mailbox.wakeState, false, rfl⟩
  rw [call_ite]
  split
  next => exact ⟨.notified, false, rfl⟩
  next => exact ⟨.parked, true, rfl⟩

/-- The last part of `release_mutator`: the word of a released actor, and the look at the mailbox
behind it. -/
def store (released : VmActorLifecycle) :
    Method VmActorDirectoryError (VmActorCell τ π) VmActorLifecycle := do
  let cell ← get
  let state ← unpackState cell.state
  modify fun cell =>
    { cell with state := packState released state.actorGeneration state.ownerGeneration 0 }
  if released = .parked ∧ cell.mailbox.wakeState = .notified then
    let _ ← enqueueParked
    return .queued
  else return released

theorem Sound.call_store (sound : cell.Sound) (wakeState : WakeState)
    {released : VmActorLifecycle}
    (allowed : released ∈ [yielding, .parked, .exiting]) :
    ∃ now lifecycle, cell.Released now ∧ Method.call (store released)
      { cell with mailbox := { cell.mailbox with wakeState } } = (now, .ok lifecycle) := by
  have settled : released ∈ [queued, .yielding, .parked, .exiting] :=
    mem_cons_of_mem _ allowed
  have stored := (sound.released ⟨released, wakeState, settled, rfl⟩).1
  have current := sound.current_stored released wakeState
  unfold store
  rw [call_get_bind, call_check_bind, sound.readable]
  dsimp only
  rw [call_modify_bind, call_ite]
  split
  next woken =>
    have enqueued := stored.call_enqueueParked
    rw [VmActorCell.awakened, current, if_pos woken.1] at enqueued
    refine ⟨_, .queued, ⟨.queued, wakeState, by simp, rfl⟩, ?_⟩
    rw [call_bind]
    unfold VmActorCell.stored at enqueued ⊢
    rw [enqueued]
    rfl
  next => exact ⟨_, released, ⟨released, wakeState, settled, rfl⟩, rfl⟩

theorem Sound.call_releaseMutator_cases (sound : cell.Sound) (token : VmActorMutatorToken)
    {next : VmActorLifecycle} (allowed : next ∈ [yielding, .parked, .exiting]) :
    (∃ e, Method.call (releaseMutator token next) cell = (cell, .error e)) ∨
      validateToken cell token = .ok () ∧ ∃ now lifecycle, cell.Released now ∧
        Method.call (releaseMutator token next) cell = (now, .ok lifecycle) := by
  unfold releaseMutator
  rw [call_get_bind, call_check_bind]
  cases valid : validateToken cell token with
  | error e => exact .inl ⟨e, rfl⟩
  | ok _ =>
    right
    refine ⟨rfl, ?_⟩
    dsimp only
    rw [call_ite]
    split
    · exact sound.call_store cell.mailbox.wakeState allowed
    obtain ⟨wakeState, ready, park⟩ := call_preparePark cell.mailbox
    rw [call_bind, onMailbox, call_within, park]
    refine sound.call_store wakeState ?_
    split
    next => exact allowed
    next => simp

end VmActorCell

/-! ## Lookups after a change -/

namespace VmActorDirectory

/-- What one caller finds and keeps. -/
structure Sound (directory : VmActorDirectory τ π) : Prop where
  wellFormed : directory.WellFormed
  cells : ∀ pid cell, directory.cell pid = .ok cell → cell.Sound

variable {self : VmActorDirectory τ π} {pid : VmProcessId}

theorem cellAt_of_cell (h : self.WellFormed)
    {cell : VmActorCell τ π} (resolved : self.cell pid = .ok cell) :
    self.cellAt cell.handle.slot = some cell :=
  (h.cell_ok_iff.mp resolved).1

variable {old cell : VmActorCell τ π}

theorem cell_setCell (h : self.WellFormed) (resolved : self.cell pid = .ok old)
    (same : cell.handle = old.handle) (other : VmProcessId) :
    (self.setCell cell).cell other = if other = pid then .ok cell else self.cell other := by
  obtain ⟨found, named⟩ := h.cell_ok_iff.mp resolved
  rw [← same] at found
  have after := cellAt_setCell found
  have back := (h.occupied _ old found).2
  rw [named] at back
  have slots : (self.setCell cell).actorSlots = self.actorSlots := rfl
  unfold VmActorDirectory.cell
  rw [slots]
  by_cases own : other = pid
  · rw [if_pos own, own, back]
    dsimp only
    rw [after, if_pos rfl]
  rw [if_neg own]
  cases indexed : self.actorSlots[other]? with
  | none => rfl
  | some slot =>
    dsimp only
    rw [after, if_neg]
    rintro rfl
    obtain ⟨cell', found', named'⟩ := h.indexed other _ indexed
    rw [found] at found'
    cases found'
    exact own (named'.symm.trans named)

theorem cellForHandle_setCell (h : self.WellFormed) (resolved : self.cell pid = .ok old)
    (same : cell.handle = old.handle) :
    (self.setCell cell).cellForHandle old.handle = .ok cell := by
  have found := cellAt_of_cell h resolved
  refine cellForHandle_ok_iff.mpr ⟨?_, same⟩
  rw [← same] at found ⊢
  rw [cellAt_setCell found, if_pos rfl]

theorem setCell_setCell (self : VmActorDirectory τ π) {first second : VmActorCell τ π}
    (same : first.handle = second.handle) :
    (self.setCell first).setCell second = self.setCell second := by
  unfold setCell
  rw [same]
  congr 1
  apply ext_getElem?
  intro i
  rw [getElem?_modify_eq, getElem?_modify_eq, getElem?_modify_eq]
  split
  next => rw [Option.map_map]; rfl
  next => rfl

/-- Writing a cell back changes nothing. -/
theorem setCell_self (h : self.WellFormed)
    {cell : VmActorCell τ π} (resolved : self.cell pid = .ok cell) : self.setCell cell = self := by
  obtain ⟨entry, inside, occupied⟩ := cellAt_eq_some_iff.mp (cellAt_of_cell h resolved)
  unfold setCell
  have slots : self.slots.modify cell.handle.slot (fun entry => { entry with cell := some cell }) =
      self.slots := by
    apply ext_getElem?
    intro i
    rw [getElem?_modify_eq]
    split
    next own =>
      rw [own, inside, Option.map_some, ← occupied]
    next => rfl
  rw [slots]

theorem Sound.setCell (h : self.Sound) (resolved : self.cell pid = .ok old)
    (same : cell.handle = old.handle) (sound : cell.Sound) : (self.setCell cell).Sound where
  wellFormed := by
    have found := cellAt_of_cell h.wellFormed resolved
    exact h.wellFormed.setCell (by rw [same]; exact found) same
  cells other cell' resolved' := by
    rw [cell_setCell h.wellFormed resolved same] at resolved'
    split at resolved'
    next =>
      cases resolved'
      exact sound
    next => exact h.cells other cell' resolved'

/-! ## Methods on a cell -/

theorem call_onCell_ok
    {resolve : VmActorDirectory τ π → Except VmActorDirectoryError (VmActorCell τ π)}
    {cell : VmActorCell τ π} (resolved : resolve self = .ok cell)
    (m : Method VmActorDirectoryError (VmActorCell τ π) α) :
    Method.call (onCell resolve m) self = (self.setCell (m.call cell).1, (m.call cell).2) := by
  unfold onCell
  rw [call_ofCall, resolved]

theorem call_onCell_error
    {resolve : VmActorDirectory τ π → Except VmActorDirectoryError (VmActorCell τ π)}
    {e : VmActorDirectoryError} (missing : resolve self = .error e)
    (m : Method VmActorDirectoryError (VmActorCell τ π) α) :
    Method.call (onCell resolve m) self = (self, .error e) := by
  unfold onCell
  rw [call_ofCall, missing]

/-- A second method on the cell that a first one has changed. -/
theorem call_onCell_again (h : self.WellFormed) (resolved : self.cell pid = .ok old)
    (same : cell.handle = old.handle) (m : Method VmActorDirectoryError (VmActorCell τ π) α)
    (keeps : (m.call cell).1.handle = cell.handle) :
    Method.call (onCell (·.cellForHandle old.handle) m) (self.setCell cell) =
      (self.setCell (m.call cell).1, (m.call cell).2) := by
  rw [call_onCell_ok (cellForHandle_setCell h resolved same), setCell_setCell _ keeps.symm]

/-! ## Control grants -/

section Control

variable {self : VmActorDirectory τ π} {pid : VmProcessId} {cell : VmActorCell τ π}
  {owner : UInt64}

theorem call_acquireControlMutator_missing {e : VmActorDirectoryError}
    (missing : self.cell pid = .error e) (positive : owner ≠ 0) (fits : ¬ generationMask < owner) :
    Method.call (acquireControlMutator pid owner) self = (self, .error e) := by
  unfold acquireControlMutator acquire
  rw [call_check_bind, failIf, if_neg (not_or.mpr ⟨positive, fits⟩)]
  exact call_onCell_error missing _

theorem Sound.call_acquireControlMutator (h : self.Sound) (resolved : self.cell pid = .ok cell)
    (positive : owner ≠ 0) (fits : ¬ generationMask < owner) :
    Method.call (acquireControlMutator pid owner) self =
      if cell.current.lifecycle = .executing then
        (self, .error (alreadyOwned cell.current.owner cell.current.ownerGeneration))
      else (self.setCell (cell.lent owner), .ok (cell.loan owner)) := by
  unfold acquireControlMutator acquire
  rw [call_check_bind, failIf, if_neg (not_or.mpr ⟨positive, fits⟩)]
  dsimp only
  rw [call_onCell_ok resolved, (h.cells pid cell resolved).call_acquire_control]
  split
  next => rw [setCell_self h.wellFormed resolved]
  next => rfl

/-- A method that works on a lent cell under its token. -/
theorem call_onLoan {α : Type} (h : self.WellFormed) (resolved : self.cell pid = .ok cell)
    {now : VmActorCell τ π} (same : now.handle = cell.handle)
    (m : Method VmActorDirectoryError (VmActorCell τ π) α)
    (keeps : (m.call now).1.handle = now.handle) :
    Method.call (onCell (·.cellForHandle (cell.loan owner).handle) m) (self.setCell now) =
      (self.setCell (m.call now).1, (m.call now).2) :=
  call_onCell_again h resolved same m keeps

theorem Sound.call_withMutator (h : self.Sound) (resolved : self.cell pid = .ok cell)
    (fits : owner.toNat < 2 ^ 20) (mutate : τ → τ × α) :
    Method.call (withMutator (cell.loan owner) mutate) (self.setCell (cell.lent owner)) =
      (self.setCell { cell.lent owner with value := (mutate cell.value).1 },
        .ok (mutate cell.value).2) := by
  have run := (h.cells pid cell resolved).call_withMutator fits mutate
  unfold withMutator
  rw [call_onLoan h.wellFormed resolved (show (cell.lent owner).handle = _ from rfl) _ (by rw [run]),
    run]

theorem Sound.call_drainPublications (h : self.Sound) (resolved : self.cell pid = .ok cell)
    (fits : owner.toNat < 2 ^ 20) (integrate : τ → VmActorPublication → π → τ) :
    Method.call (drainPublications (cell.loan owner) integrate)
        (self.setCell (cell.lent owner)) =
      (self.setCell
          { cell.lent owner with
            mailbox := cell.mailbox.drain
            value := cell.integrated integrate },
        .ok cell.mailbox.queue.length) := by
  have run := (h.cells pid cell resolved).call_drainPublications fits integrate
  unfold drainPublications
  rw [call_onLoan h.wellFormed resolved (show (cell.lent owner).handle = _ from rfl) _ (by rw [run]),
    run]

theorem Sound.call_releaseControlMutator (h : self.Sound) (resolved : self.cell pid = .ok cell)
    (fits : owner.toNat < 2 ^ 20) (mailbox : VmActorMailbox π) (value : τ) :
    Method.call (releaseControlMutator (cell.loan owner))
        (self.setCell { cell.lent owner with mailbox, value }) =
      (self.setCell { cell with state := cell.relinquished, mailbox, value }, .ok ()) := by
  have word : VmActorCell.state { cell.lent owner with mailbox, value } =
      (cell.lent owner).state := rfl
  have run := (h.cells pid cell resolved).call_releaseControlMutator fits word
  have same : VmActorCell.handle { cell.lent owner with mailbox, value } = cell.handle := rfl
  unfold releaseControlMutator
  rw [call_onLoan h.wellFormed resolved same _ (by rw [run]), run]
  rfl

end Control

end VmActorDirectory

end Terlan.ActorDirectory
