/-
  Whether an idle actor parks. Its lifecycle word and the wake state of its mailbox are set by
  different calls, and `prepare_park` succeeds from `ACTIVE` only.

  `Agrees`: the mailbox is `PARKED` for a parked actor only. Every call keeps it but two, which
  take a parked actor out of its lifecycle and leave the mailbox as it is (`Strands`).

  * `idle_actor_parks`: in a run without them, a worker that has drained its actor and saw no
    publication since parks it.
  * `idle_actor_yields`: after a timer woke a parked actor it does not.
-/
import Terlan.ActorDirectory.SequentialSpec

namespace Terlan.ActorDirectory

open Terlan.Lib VmActorLifecycle List
open VmActorDirectoryError

variable {τ π : Type}

/-! ## Cells -/

theorem fromWord_of_unpackState {word : UInt64} {state : VmActorState}
    (read : unpackState word = .ok state) : fromWord word = .ok state.lifecycle := by
  obtain ⟨lifecycle, found, same⟩ := except_bind_ok_iff.mp read
  cases same
  exact found

namespace VmActorCell

/-- The mailbox is parked for a parked actor only, and nobody is about to park. -/
def Agrees (cell : VmActorCell τ π) : Prop :=
  cell.mailbox.wakeState ≠ .parking ∧
    (cell.mailbox.wakeState = .parked → fromWord cell.state = .ok .parked)

/-- Nothing waits in the mailbox, and nobody said so. -/
def Idle (cell : VmActorCell τ π) : Prop :=
  cell.mailbox.queue = [] ∧ cell.mailbox.wakeState ≠ .notified

/-- One call on a cell that keeps both, and the handle. -/
structure Settles (cell now : VmActorCell τ π) : Prop where
  handle : now.handle = cell.handle
  agrees : cell.Agrees → now.Agrees
  idle : cell.Idle → now.Idle

theorem Settles.refl (cell : VmActorCell τ π) : cell.Settles cell := ⟨rfl, id, id⟩

variable {cell : VmActorCell τ π}

/-- A word with the same lifecycle, or one that was not parked. -/
theorem settles_word {after : UInt64} (word : cell.Agrees → cell.mailbox.wakeState = .parked →
      fromWord after = .ok .parked) : cell.Settles { cell with state := after } :=
  ⟨rfl, fun agrees => ⟨agrees.1, word agrees⟩, id⟩

variable {token : VmActorMutatorToken}

theorem fromWord_of_valid (valid : validateToken cell token = .ok ()) :
    fromWord cell.state = .ok token.lifecycle :=
  fromWord_of_unpackState (validateToken_ok_iff.mp valid)

theorem settles_withMutator {α : Type} (cell : VmActorCell τ π) (token : VmActorMutatorToken)
    (mutate : τ → τ × α) : cell.Settles ((withMutator token mutate).call cell).1 := by
  rcases call_withMutator_cases cell token mutate with ⟨e, run⟩ | ⟨_, run⟩
  · rw [run]
    exact .refl cell
  · rw [run]
    exact ⟨rfl, id, id⟩

theorem settles_drainPublications (cell : VmActorCell τ π) (token : VmActorMutatorToken)
    (integrate : τ → VmActorPublication → π → τ) :
    cell.Settles ((drainPublications token integrate).call cell).1 ∧
      ∀ count, ((drainPublications token integrate).call cell).2 = .ok count →
        ((drainPublications token integrate).call cell).1.Idle := by
  rcases call_drainPublications_cases cell token integrate with ⟨e, run⟩ | ⟨_, run⟩
  · rw [run]
    exact ⟨.refl cell, nofun⟩
  rw [run]
  have idle : VmActorCell.Idle (τ := τ)
      { cell with mailbox := cell.mailbox.drain, value := cell.integrated integrate } := by
    refine ⟨rfl, ?_⟩
    change (if cell.mailbox.wakeState = .notified then WakeState.active
      else cell.mailbox.wakeState) ≠ .notified
    split_ifs with woken
    · decide
    · exact woken
  refine ⟨⟨rfl, fun agrees => ?_, fun _ => idle⟩, fun _ _ => idle⟩
  unfold Agrees VmActorMailbox.drain
  dsimp only
  split_ifs
  · exact ⟨by decide, fun parked => by cases parked⟩
  · exact agrees

theorem grant_fromWord {kind : MutatorKind} {handle : VmActorHandle} {owner word after : UInt64}
    (grant : kind.grant handle owner word = .ok (after, token)) :
    token.handle = handle ∧ ∃ before, fromWord word = .ok before ∧
      fromWord after = .ok token.lifecycle ∧ (kind = .execution → token.lifecycle = .executing) ∧
          (token.lifecycle = before ∨ before = .queued) := by
  unfold MutatorKind.grant at grant
  obtain ⟨before, read, rest⟩ := except_bind_ok_iff.mp grant
  obtain ⟨lifecycle, checked, same⟩ := except_bind_ok_iff.mp rest
  cases same
  refine ⟨rfl, before.lifecycle, fromWord_of_unpackState read, fromWord_packState _ _ _ _, ?_⟩
  obtain ⟨_, checks⟩ := check_bind_ok_iff.mp checked
  cases kind with
  | execution =>
    obtain ⟨queued, same⟩ := check_bind_ok_iff.mp checks
    cases same
    exact ⟨fun _ => rfl, .inr (not_not.mp (failIf_ok_iff.mp queued))⟩
  | control =>
    obtain ⟨_, same⟩ := check_bind_ok_iff.mp checks
    cases same
    exact ⟨nofun, .inl rfl⟩

theorem settles_acquire (cell : VmActorCell τ π) (kind : MutatorKind) (owner : UInt64) :
    cell.Settles ((acquire kind owner).call cell).1 := by
  unfold acquire
  rw [call_get_bind, call_check_bind]
  cases grant : kind.grant cell.handle owner cell.state with
  | error e => exact .refl cell
  | ok result =>
    obtain ⟨after, token⟩ := result
    obtain ⟨-, before, read, written, -, fate⟩ := grant_fromWord grant
    refine settles_word fun agrees parked => ?_
    have asleep := agrees.2 parked
    rw [read, Except.ok.injEq] at asleep
    rcases fate with same | queued
    · rw [written, same, asleep]
    · rw [asleep] at queued
      cases queued

theorem settles_releaseControlMutator (cell : VmActorCell τ π) (token : VmActorMutatorToken) :
    cell.Settles ((releaseControlMutator token).call cell).1 := by
  unfold releaseControlMutator
  rw [call_get_bind, call_check_bind]
  cases valid : validateToken cell token with
  | error e => exact .refl cell
  | ok _ =>
    dsimp only
    rw [call_check_bind, validateToken_ok_iff.mp valid]
    refine settles_word fun agrees parked => ?_
    have asleep := agrees.2 parked
    rw [fromWord_of_valid valid] at asleep
    rw [← asleep]
    exact fromWord_packState _ _ _ _

/-! ### Publication -/

theorem call_publish_cases (mailbox : VmActorMailbox π) (handle : VmActorHandle) (payload : π) :
    (∃ e next, Method.call (VmActorMailbox.publish handle payload) mailbox =
        ({ mailbox with nextSequence := next }, .error e)) ∨
      ∃ now publication, Method.call (VmActorMailbox.publish handle payload) mailbox =
        (now, .ok publication) ∧ now.wakeState = .notified := by
  unfold VmActorMailbox.publish
  rw [call_get_bind, call_check_bind]
  cases failIf (¬ mailbox.admitted < actorMailboxCapacity) (mailboxFull handle) with
  | error e => exact .inl ⟨e, mailbox.nextSequence, rfl⟩
  | ok _ =>
    dsimp only
    rw [call_modify_bind, call_check_bind]
    cases failIf (¬ mailbox.queue.length < actorMailboxCapacity) (mailboxFull handle) with
    | error e => exact .inl ⟨e, mailbox.nextSequence + 1, rfl⟩
    | ok _ => exact .inr ⟨_, _, rfl, rfl⟩

theorem call_enqueueParked_cases (cell : VmActorCell τ π) :
    ∃ state result, Method.call enqueueParked cell = ({ cell with state }, result) := by
  unfold enqueueParked
  rw [call_get_bind, call_check_bind]
  cases unpackState cell.state with
  | error e => exact ⟨cell.state, _, rfl⟩
  | ok before =>
    dsimp only
    rw [call_ite]
    split
    · exact ⟨cell.state, _, rfl⟩
    · exact ⟨_, _, rfl⟩

theorem agrees_publishFragment (cell : VmActorCell τ π) (payload : π) :
    ((publishFragment payload).call cell).1.handle = cell.handle ∧
      (cell.Agrees → ((publishFragment payload).call cell).1.Agrees) := by
  unfold publishFragment
  rw [call_get_bind, call_check_bind]
  cases unpackState cell.state with
  | error e => exact ⟨rfl, id⟩
  | ok state =>
    dsimp only
    rw [call_check_bind]
    cases failIf (state.lifecycle ∈ [exiting, .retired, .reclaimed])
        (invalidTransition state.lifecycle state.lifecycle) with
    | error e => exact ⟨rfl, id⟩
    | ok _ =>
      dsimp only
      rw [call_bind, onMailbox, call_within]
      rcases call_publish_cases cell.mailbox cell.handle payload with
        ⟨e, next, run⟩ | ⟨now, publication, run, woken⟩
      · rw [run]
        exact ⟨rfl, id⟩
      have notified : ∀ word, VmActorCell.Agrees (τ := τ)
          { cell with mailbox := now, state := word } := by
        intro word
        unfold Agrees
        rw [woken]
        exact ⟨by decide, fun parked => by cases parked⟩
      rw [run]
      dsimp only
      rw [call_ite]
      split
      · obtain ⟨word, result, enqueue⟩ := call_enqueueParked_cases { cell with mailbox := now }
        rw [call_bind, enqueue]
        cases result with
        | error | ok _ => exact ⟨rfl, fun _ => notified word⟩
      · exact ⟨rfl, fun _ => notified cell.state⟩

/-! ### Release -/

theorem call_store_cases (cell : VmActorCell τ π) {state : VmActorState}
    (read : unpackState cell.state = .ok state) (released : VmActorLifecycle) :
    ∃ word lifecycle, (store released).call cell = ({ cell with state := word }, lifecycle) ∧
      (cell.mailbox.wakeState ≠ .notified →
        fromWord word = .ok released ∧ lifecycle = .ok released) := by
  unfold store
  rw [call_get_bind, call_check_bind, read]
  dsimp only
  rw [call_modify_bind, call_ite]
  split
  next woken =>
    obtain ⟨word, result, enqueue⟩ := call_enqueueParked_cases
      { cell with state := packState released state.actorGeneration state.ownerGeneration 0 }
    rw [call_bind, enqueue]
    cases result with
    | error | ok _ => exact ⟨word, _, rfl, fun silent => absurd woken.2 silent⟩
  next => exact ⟨_, _, rfl, fun _ => ⟨fromWord_packState _ _ _ _, rfl⟩⟩

/-- The handshake: it parks an empty mailbox that is active. -/
theorem call_preparePark_cases (mailbox : VmActorMailbox π) : (mailbox.wakeState ≠ .active ∧
        Method.call VmActorMailbox.preparePark mailbox = (mailbox, .ok false)) ∨
      (mailbox.queue ≠ [] ∧ Method.call VmActorMailbox.preparePark mailbox =
        ({ mailbox with wakeState := .notified }, .ok false)) ∨
      Method.call VmActorMailbox.preparePark mailbox =
        ({ mailbox with wakeState := .parked }, .ok true) := by
  unfold VmActorMailbox.preparePark
  rw [call_get_bind, call_ite]
  split
  next busy => exact .inl ⟨busy, rfl⟩
  next =>
    rw [call_ite]
    split
    next waiting => exact .inr (.inl ⟨waiting, rfl⟩)
    next => exact .inr (.inr rfl)

theorem settles_releaseMutator (cell : VmActorCell τ π) (token : VmActorMutatorToken)
    (next : VmActorLifecycle)
    (awake : validateToken cell token = .ok () → token.lifecycle = .parked →
      cell.mailbox.wakeState ≠ .parked) :
    cell.Settles ((releaseMutator token next).call cell).1 := by
  unfold releaseMutator
  rw [call_get_bind, call_check_bind]
  cases valid : validateToken cell token with
  | error e => exact .refl cell
  | ok _ =>
    have read := validateToken_ok_iff.mp valid
    have settles : ∀ word, cell.Settles { cell with state := word } := by
      intro word
      refine settles_word fun agrees parked => ?_
      have asleep := agrees.2 parked
      rw [fromWord_of_valid valid, Except.ok.injEq] at asleep
      exact absurd parked (awake valid asleep)
    dsimp only
    rw [call_ite]
    by_cases other : next ≠ .parked
    · rw [if_pos other]
      obtain ⟨word, lifecycle, run, -⟩ := call_store_cases cell read next
      exact (congrArg (fun result => cell.Settles result.1) run).mpr (settles word)
    obtain rfl := not_not.mp other
    rw [if_neg other, call_bind, onMailbox, call_within]
    rcases call_preparePark_cases cell.mailbox with ⟨_, park⟩ | ⟨waiting, park⟩ | park
    · rw [park]
      obtain ⟨word, lifecycle, run, -⟩ := call_store_cases cell read .yielding
      exact (congrArg (fun result => cell.Settles result.1) run).mpr (settles word)
    · rw [park]
      obtain ⟨word, lifecycle, run, -⟩ := call_store_cases
        { cell with mailbox := { cell.mailbox with wakeState := .notified } } read .yielding
      refine (congrArg (fun result => cell.Settles result.1) run).mpr ?_
      exact ⟨rfl, fun _ => ⟨by simp, by simp⟩, fun idle => absurd idle.1 waiting⟩
    · rw [park]
      obtain ⟨word, lifecycle, run, silent⟩ := call_store_cases
        { cell with mailbox := { cell.mailbox with wakeState := .parked } } read .parked
      refine (congrArg (fun result => cell.Settles result.1) run).mpr ?_
      exact ⟨rfl, fun _ => ⟨by simp, fun _ => (silent (by simp)).1⟩,
        fun idle => ⟨idle.1, by simp⟩⟩

/-- An executing actor without mail parks. -/
theorem call_releaseMutator_idle
    (agrees : cell.Agrees) (idle : cell.Idle) (valid : validateToken cell token = .ok ())
    (executes : token.lifecycle = .executing) :
    ∃ now, (releaseMutator token .parked).call cell = (now, .ok .parked) ∧
      now.handle = cell.handle ∧ fromWord now.state = .ok .parked := by
  have awake : cell.mailbox.wakeState = .active := by
    have word := fromWord_of_valid valid
    rw [executes] at word
    cases wake : cell.mailbox.wakeState with
    | active => rfl
    | parking => exact absurd wake agrees.1
    | parked =>
      have asleep := agrees.2 wake
      rw [word] at asleep
      cases asleep
    | notified => exact absurd wake idle.2
  have read := validateToken_ok_iff.mp valid
  have park : Method.call VmActorMailbox.preparePark cell.mailbox =
      ({ cell.mailbox with wakeState := .parked }, .ok true) := by
    rcases call_preparePark_cases cell.mailbox with ⟨busy, _⟩ | ⟨waiting, _⟩ | park
    · exact absurd awake busy
    · exact absurd idle.1 waiting
    · exact park
  obtain ⟨word, lifecycle, run, silent⟩ := call_store_cases
    { cell with mailbox := { cell.mailbox with wakeState := .parked } } read .parked
  obtain ⟨written, rfl⟩ := silent (by simp)
  refine ⟨{ cell with mailbox := { cell.mailbox with wakeState := .parked }, state := word }, ?_,
    rfl, written⟩
  unfold releaseMutator
  rw [call_get_bind, call_check_bind, valid]
  dsimp only
  rw [call_ite, if_neg (by simp), call_bind, onMailbox, call_within, park]
  exact run

end VmActorCell

/-! ## Runs of one caller -/

namespace VmActorDirectory

inductive Request (τ π : Type) where
  | insert (pid : VmProcessId) (value : τ)
  | publishFragment (pid : VmProcessId) (payload : π)
  | markQueued (pid : VmProcessId)
  | acquireMutator (pid : VmProcessId) (owner : UInt64)
  | acquireControlMutator (pid : VmProcessId) (owner : UInt64)
  | withMutator (token : VmActorMutatorToken) (mutate : τ → τ)
  | drainPublications (token : VmActorMutatorToken) (integrate : τ → VmActorPublication → π → τ)
  | releaseMutator (token : VmActorMutatorToken) (next : VmActorLifecycle)
  | releaseControlMutator (token : VmActorMutatorToken)

inductive Reply where
  | inserted (result : Except VmActorDirectoryError VmActorHandle)
  | published (result : Except VmActorDirectoryError (VmActorPublication × VmMailboxWake))
  | done (result : Except VmActorDirectoryError Unit)
  | granted (result : Except VmActorDirectoryError VmActorMutatorToken)
  | drained (result : Except VmActorDirectoryError Nat)
  | released (result : Except VmActorDirectoryError VmActorLifecycle)
deriving DecidableEq

/-- Runs a method and names its result. -/
def answer {α : Type} (m : Method VmActorDirectoryError (VmActorDirectory τ π) α)
    (name : Except VmActorDirectoryError α → Reply) (self : VmActorDirectory τ π) :
    VmActorDirectory τ π × Reply :=
  ((m.call self).1, name (m.call self).2)

def call (self : VmActorDirectory τ π) : Request τ π → VmActorDirectory τ π × Reply
  | .insert pid value => ((self.insert pid value).1, .inserted (self.insert pid value).2)
  | .publishFragment pid payload => answer (publishFragment pid payload) .published self
  | .markQueued pid => answer (markQueued pid) .done self
  | .acquireMutator pid owner => answer (acquireMutator pid owner) .granted self
  | .acquireControlMutator pid owner => answer (acquireControlMutator pid owner) .granted self
  | .withMutator token mutate =>
    answer (withMutator token fun value => (mutate value, ())) .done self
  | .drainPublications token integrate => answer (drainPublications token integrate) .drained self
  | .releaseMutator token next => answer (releaseMutator token next) .released self
  | .releaseControlMutator token => answer (releaseControlMutator token) .done self

/-- Whose mailbox a request publishes to. -/
def Request.mailTo : Request τ π → Option VmProcessId
  | .publishFragment pid _ => some pid
  | _ => none

/-- The request takes a parked actor out of its lifecycle and leaves its mailbox parked: a
timer wake, or the release of a grant of control as if it were one of execution. -/
def Strands (self : VmActorDirectory τ π) : Request τ π → Prop
  | .markQueued pid => ∃ cell state, self.cell pid = .ok cell ∧
      unpackState cell.state = .ok state ∧ state.lifecycle = .parked ∧ state.owner = 0 ∧
        cell.mailbox.wakeState = .parked
  | .releaseMutator token next => next ∈ [yielding, .parked, .exiting] ∧
      token.lifecycle = .parked ∧ ∃ cell, self.cellForHandle token.handle = .ok cell ∧
        validateToken cell token = .ok () ∧ cell.mailbox.wakeState = .parked
  | _ => False

/-! ### One request -/

/-- What a request may do to a directory. -/
inductive Step (mail : Option VmProcessId) (before : VmActorDirectory τ π) :
    VmActorDirectory τ π → Prop where
  | unchanged : Step mail before before
  | settled {cell now : VmActorCell τ π} (found : before.cellAt cell.handle.slot = some cell)
      (h : cell.Settles now) : Step mail before (before.setCell now)
  | published {cell now : VmActorCell τ π} (found : before.cellAt cell.handle.slot = some cell)
      (addressee : mail = some cell.handle.pid) (handle : now.handle = cell.handle)
      (agrees : cell.Agrees → now.Agrees) : Step mail before (before.setCell now)
  | inserted {after : VmActorDirectory τ π} {slot : Nat} {handle : VmActorHandle} {value : τ}
      (empty : before.cellAt slot = none) (wellFormed : after.WellFormed)
      (cells : ∀ place, after.cellAt place =
        if place = slot then some (.new handle value) else before.cellAt place) :
      Step mail before after

/-- All cells agree with their mailboxes. -/
structure Agreeing (directory : VmActorDirectory τ π) : Prop where
  wellFormed : directory.WellFormed
  cells : ∀ slot cell, directory.cellAt slot = some cell → cell.Agrees

/-- The actor has no mail. -/
def IdleAt (handle : VmActorHandle) (directory : VmActorDirectory τ π) : Prop :=
  ∃ cell, directory.cellForHandle handle = .ok cell ∧ cell.Idle

variable {before after : VmActorDirectory τ π} {mail : Option VmProcessId}

theorem agrees_new (handle : VmActorHandle) (value : τ) :
    (VmActorCell.new handle value : VmActorCell τ π).Agrees := by
  refine ⟨fun parking => ?_, fun parked => ?_⟩
  · cases parking
  · cases parked

theorem Agreeing.setCell (h : Agreeing before) {cell now : VmActorCell τ π}
    (found : before.cellAt cell.handle.slot = some cell) (same : now.handle = cell.handle)
    (agrees : cell.Agrees → now.Agrees) : Agreeing (before.setCell now) := by
  have found' : before.cellAt now.handle.slot = some cell := by rw [same]; exact found
  refine ⟨h.wellFormed.setCell found' same, fun slot other there => ?_⟩
  rw [cellAt_setCell found'] at there
  split at there
  · cases there
    exact agrees (h.cells _ cell found)
  · exact h.cells slot other there

theorem Step.agreeing (step : Step mail before after) (h : Agreeing before) : Agreeing after := by
  cases step with
  | unchanged => exact h
  | settled found settles => exact h.setCell found settles.handle settles.agrees
  | published found _ same agrees => exact h.setCell found same agrees
  | inserted empty wellFormed cells =>
    refine ⟨wellFormed, fun slot other there => ?_⟩
    rw [cells] at there
    split at there
    · cases there
      exact agrees_new _ _
    · exact h.cells slot other there

variable {handle : VmActorHandle}

theorem idleAt_setCell (h : IdleAt handle before)
    {cell now : VmActorCell τ π} (found : before.cellAt cell.handle.slot = some cell)
    (same : now.handle = cell.handle) (idle : cell.handle = handle → cell.Idle → now.Idle) :
    IdleAt handle (before.setCell now) := by
  obtain ⟨mine, resolved, mineIdle⟩ := h
  obtain ⟨there, named⟩ := cellForHandle_ok_iff.mp resolved
  have found' : before.cellAt now.handle.slot = some cell := by rw [same]; exact found
  by_cases own : handle.slot = now.handle.slot
  · have one : cell = mine := by
      rw [own, found', Option.some_inj] at there
      exact there
    subst one
    refine ⟨now, cellForHandle_ok_iff.mpr ⟨?_, same.trans named⟩, idle named mineIdle⟩
    rw [cellAt_setCell found', if_pos own]
  · refine ⟨mine, cellForHandle_ok_iff.mpr ⟨?_, named⟩, mineIdle⟩
    rw [cellAt_setCell found', if_neg own]
    exact there

theorem Step.idleAt (step : Step mail before after)
    (silent : mail ≠ some handle.pid) (h : IdleAt handle before) : IdleAt handle after := by
  cases step with
  | unchanged => exact h
  | settled found settles => exact idleAt_setCell h found settles.handle fun _ => settles.idle
  | published found addressee same _ =>
    refine idleAt_setCell h found same fun own => ?_
    rw [own] at addressee
    exact absurd addressee silent
  | inserted empty _ cells =>
    obtain ⟨mine, resolved, mineIdle⟩ := h
    obtain ⟨there, named⟩ := cellForHandle_ok_iff.mp resolved
    refine ⟨mine, cellForHandle_ok_iff.mpr ⟨?_, named⟩, mineIdle⟩
    rw [cells, if_neg]
    · exact there
    · rintro rfl
      rw [empty] at there
      cases there

variable {self : VmActorDirectory τ π}

theorem onCell_step {α : Type}
    {resolve : VmActorDirectory τ π → Except VmActorDirectoryError (VmActorCell τ π)}
    {m : Method VmActorDirectoryError (VmActorCell τ π) α}
    (found : ∀ cell, resolve self = .ok cell → self.cellAt cell.handle.slot = some cell)
    (settles : ∀ cell, resolve self = .ok cell → cell.Settles (m.call cell).1) :
    Step mail self ((onCell resolve m).call self).1 := by
  cases resolved : resolve self with
  | error e =>
    rw [call_onCell_error resolved]
    exact .unchanged
  | ok cell =>
    rw [call_onCell_ok resolved]
    exact .settled (found cell resolved) (settles cell resolved)

theorem cellAt_of_cellForHandle
    {cell : VmActorCell τ π} (resolved : self.cellForHandle handle = .ok cell) :
    self.cellAt cell.handle.slot = some cell := by
  obtain ⟨there, named⟩ := cellForHandle_ok_iff.mp resolved
  rw [named]
  exact there

theorem onHandle_step {α : Type} {m : Method VmActorDirectoryError (VmActorCell τ π) α}
    (settles : ∀ cell, self.cellForHandle handle = .ok cell → cell.Settles (m.call cell).1) :
    Step mail self ((onCell (·.cellForHandle handle) m).call self).1 :=
  onCell_step (fun _ resolved => cellAt_of_cellForHandle resolved) settles

theorem acquire_step (h : self.WellFormed) (kind : MutatorKind)
    (pid : VmProcessId) (owner : UInt64) :
    Step mail self ((acquire kind pid owner).call self).1 := by
  unfold acquire
  rw [call_check_bind]
  cases failIf (owner = 0 ∨ generationMask < owner) (invalidOwner owner) with
  | error e => exact .unchanged
  | ok _ =>
    exact onCell_step (fun cell resolved => cellAt_of_cell h resolved)
      fun cell _ => cell.settles_acquire kind owner

theorem transitionUnowned_fromWord {allowed : List VmActorLifecycle} {next : VmActorLifecycle}
    {word after : UInt64} (moves : transitionUnowned allowed next word = .ok after) :
    ∃ state, unpackState word = .ok state ∧ state.owner = 0 ∧ state.lifecycle ∈ allowed := by
  unfold transitionUnowned at moves
  obtain ⟨state, read, rest⟩ := except_bind_ok_iff.mp moves
  obtain ⟨owner, rest⟩ := check_bind_ok_iff.mp rest
  obtain ⟨lifecycle, _⟩ := check_bind_ok_iff.mp rest
  exact ⟨state, read, not_not.mp (failIf_ok_iff.mp owner),
    not_not.mp (failIf_ok_iff.mp lifecycle)⟩

variable {pid : VmProcessId}

theorem markQueued_step (h : self.WellFormed) (safe : ¬ self.Strands (.markQueued pid)) :
    Step mail self ((markQueued pid).call self).1 := by
  unfold markQueued
  rw [call_get_bind, call_check_bind]
  cases self.lifecycle pid with
  | error e => exact .unchanged
  | ok lifecycle =>
    dsimp only
    rw [call_ite]
    split
    · exact .unchanged
    rw [call_ofCall]
    unfold VmActorDirectory.transition
    cases resolved : self.cell pid with
    | error e => exact .unchanged
    | ok cell =>
      dsimp only
      cases moves : transitionUnowned [.yielding, .parked] .queued cell.state with
      | error e => exact .unchanged
      | ok after =>
        refine .settled (cellAt_of_cell h resolved)
          (VmActorCell.settles_word fun agrees parked => ?_)
        obtain ⟨state, read, unowned, -⟩ := transitionUnowned_fromWord moves
        have asleep := agrees.2 parked
        rw [fromWord_of_unpackState read, Except.ok.injEq] at asleep
        exact absurd ⟨cell, state, resolved, read, asleep, unowned, parked⟩ safe

theorem call_step (h : self.WellFormed) {request : Request τ π}
    (safe : ¬ self.Strands request) : Step request.mailTo self (self.call request).1 := by
  cases request with
  | insert pid value =>
    rcases h.insert_cases pid value with ⟨e, run⟩ | ⟨after, run, _, empty, wellFormed, cells, _⟩
    · change Step _ self (self.insert pid value).1
      rw [run]
      exact .unchanged
    · change Step _ self (self.insert pid value).1
      rw [run]
      exact .inserted empty wellFormed cells
  | publishFragment pid payload =>
    change Step _ self ((publishFragment pid payload).call self).1
    unfold publishFragment
    cases resolved : self.cell pid with
    | error e =>
      rw [call_onCell_error resolved]
      exact .unchanged
    | ok cell =>
      rw [call_onCell_ok resolved]
      obtain ⟨handle, agrees⟩ := cell.agrees_publishFragment payload
      have named := (h.cell_ok_iff.mp resolved).2
      exact .published (cellAt_of_cell h resolved) (congrArg some named.symm) handle agrees
  | markQueued pid => exact markQueued_step h safe
  | acquireMutator pid owner => exact acquire_step h .execution pid owner
  | acquireControlMutator pid owner => exact acquire_step h .control pid owner
  | withMutator token mutate =>
    exact onHandle_step fun cell _ => cell.settles_withMutator token _
  | drainPublications token integrate =>
    exact onHandle_step fun cell _ => (cell.settles_drainPublications token integrate).1
  | releaseMutator token next =>
    change Step _ self ((releaseMutator token next).call self).1
    unfold releaseMutator
    rw [call_check_bind]
    cases check : failIf (next ∉ [yielding, .parked, .exiting])
        (invalidTransition .executing next) with
    | error e => exact .unchanged
    | ok _ =>
      have allowed := not_not.mp (failIf_ok_iff.mp check)
      exact onHandle_step fun cell resolved => cell.settles_releaseMutator token next
        fun valid parked asleep => safe ⟨allowed, parked, cell, resolved, valid, asleep⟩
  | releaseControlMutator token =>
    exact onHandle_step fun cell _ => cell.settles_releaseControlMutator token

/-! ### A run -/

theorem replay_agreeing (h : Agreeing self) {requests : List (Request τ π)}
    (safe : Guarded call (fun s request => ¬ Strands s request) self requests) :
    Agreeing (replay call self requests).1 :=
  replay_invariant_of call (fun s request => ¬ Strands s request) (fun s _ => Agreeing s)
    (fun _ _ _ safe h => (call_step h.wellFormed safe).agreeing h) self [] requests h safe

/-- An actor without mail stays so while nobody publishes to it. -/
theorem replay_idleAt (h : Agreeing self)
    (idle : IdleAt handle self) {requests : List (Request τ π)}
    (safe : Guarded call (fun s request => ¬ Strands s request) self requests)
    (silent : ∀ request ∈ requests, request.mailTo ≠ some handle.pid) :
    IdleAt handle (replay call self requests).1 := by
  induction requests generalizing self with
  | nil => exact idle
  | cons request requests ih =>
    have step := call_step h.wellFormed safe.1
    exact ih (step.agreeing h) (step.idleAt (silent request mem_cons_self) idle) safe.2
      fun r mem => silent r (mem_cons_of_mem _ mem)

theorem new_agreeing : Agreeing (new : VmActorDirectory τ π) := by
  refine ⟨new_wellFormed, fun slot cell found => ?_⟩
  cases slot <;> cases found

variable {token : VmActorMutatorToken}

/-- Who was granted execution executes the actor it asked for. -/
theorem granted_executes (h : self.WellFormed) {owner : UInt64}
    (granted : (call self (.acquireMutator pid owner)).2 = .granted (.ok token)) :
    token.lifecycle = .executing ∧ token.handle.pid = pid := by
  have result : ((acquireMutator pid owner).call self).2 = .ok token := Reply.granted.inj granted
  unfold acquireMutator acquire at result
  rw [call_check_bind] at result
  cases check : failIf (owner = 0 ∨ generationMask < owner) (invalidOwner owner) with
  | error e =>
    rw [check] at result
    cases result
  | ok _ =>
    rw [check] at result
    dsimp only at result
    cases resolved : self.cell pid with
    | error e =>
      rw [call_onCell_error resolved] at result
      cases result
    | ok cell =>
      rw [call_onCell_ok resolved] at result
      dsimp only at result
      unfold VmActorCell.acquire at result
      rw [call_get_bind, call_check_bind] at result
      cases grant : MutatorKind.execution.grant cell.handle owner cell.state with
      | error e =>
        rw [grant] at result
        cases result
      | ok pair =>
        rw [grant] at result
        cases result
        obtain ⟨named, _, _, _, executes, _⟩ := VmActorCell.grant_fromWord grant
        refine ⟨executes rfl, ?_⟩
        rw [named]
        exact (h.cell_ok_iff.mp resolved).2

theorem granted_of_mem {history : List (Request τ π)}
    (safe : Guarded call (fun s request => ¬ Strands s request) new history) {owner : UInt64}
    (granted : (.acquireMutator pid owner, .granted (.ok token)) ∈ (replay call new history).2) :
    token.lifecycle = .executing ∧ token.handle.pid = pid := by
  have known := replay_invariant_of call (fun s request => ¬ Strands s request)
    (fun s events => Agreeing s ∧ ∀ event ∈ events,
      event = (.acquireMutator pid owner, .granted (.ok token)) →
        token.lifecycle = .executing ∧ token.handle.pid = pid)
    (fun s events request safe h => by
      refine ⟨(call_step h.1.wellFormed safe).agreeing h.1, fun event mem same => ?_⟩
      rcases mem_append.mp mem with earlier | now
      · exact h.2 event earlier same
      · rw [mem_singleton] at now
        obtain ⟨rfl, reply⟩ := Prod.mk.inj (now.symm.trans same)
        exact granted_executes h.1.wellFormed reply)
    new [] history ⟨new_agreeing, fun _ mem => absurd mem not_mem_nil⟩ safe
  exact known.2 _ granted rfl

theorem drained_idle {integrate : τ → VmActorPublication → π → τ} {count : Nat}
    (drained : (call self (.drainPublications token integrate)).2 = .drained (.ok count)) :
    IdleAt token.handle (call self (.drainPublications token integrate)).1 := by
  have result : ((drainPublications token integrate).call self).2 = .ok count :=
    Reply.drained.inj drained
  change IdleAt token.handle ((drainPublications token integrate).call self).1
  unfold drainPublications at result ⊢
  cases resolved : self.cellForHandle token.handle with
  | error e =>
    rw [call_onCell_error resolved] at result
    cases result
  | ok cell =>
    rw [call_onCell_ok resolved] at result ⊢
    obtain ⟨settles, idle⟩ := cell.settles_drainPublications token integrate
    have named := (cellForHandle_ok_iff.mp resolved).2
    have found := cellAt_of_cellForHandle resolved
    rw [← settles.handle] at found
    refine ⟨_, cellForHandle_ok_iff.mpr ⟨?_, settles.handle.trans named⟩, idle count result⟩
    rw [cellAt_setCell found, settles.handle, named, if_pos rfl]

/-- An executing actor without mail is parked by its release. -/
theorem released_parks (h : Agreeing self) (idle : IdleAt token.handle self)
    (executes : token.lifecycle = .executing) {lifecycle : VmActorLifecycle}
    (released : (call self (.releaseMutator token .parked)).2 = .released (.ok lifecycle)) :
    lifecycle = .parked ∧
      (call self (.releaseMutator token .parked)).1.lifecycle token.handle.pid = .ok .parked := by
  have result : ((releaseMutator token .parked).call self).2 = .ok lifecycle :=
    Reply.released.inj released
  change _ ∧ ((releaseMutator token .parked).call self).1.lifecycle token.handle.pid = _
  obtain ⟨cell, resolved, quiet⟩ := idle
  have found := cellAt_of_cellForHandle resolved
  have named := (cellForHandle_ok_iff.mp resolved).2
  have run : (releaseMutator token .parked).call self =
      (self.setCell ((VmActorCell.releaseMutator token .parked).call cell).1,
        ((VmActorCell.releaseMutator token .parked).call cell).2) := by
    unfold releaseMutator
    exact call_onCell_ok resolved _
  rw [run] at result ⊢
  have valid : validateToken cell token = .ok () := by
    cases check : validateToken cell token with
    | ok _ => rfl
    | error e =>
      unfold VmActorCell.releaseMutator at result
      rw [call_get_bind, call_check_bind, check] at result
      cases result
  obtain ⟨now, parks, handle, word⟩ := VmActorCell.call_releaseMutator_idle
    (h.cells _ cell found) quiet valid executes
  rw [parks] at result ⊢
  cases result
  refine ⟨rfl, ?_⟩
  have indexed : self.cell token.handle.pid = .ok cell :=
    h.wellFormed.cell_ok_iff.mpr ⟨found, congrArg (·.pid) named⟩
  unfold VmActorDirectory.lifecycle unpackState
  rw [cell_setCell h.wellFormed indexed handle, if_pos rfl, except_bind_ok_iff]
  refine ⟨now, rfl, ?_⟩
  rw [word]
  rfl

/-- A worker that has drained its actor and saw no publication since parks it. -/
theorem idle_actor_parks {pid : VmProcessId} {owner : UInt64} {token : VmActorMutatorToken}
    {integrate : τ → VmActorPublication → π → τ} {history quiet : List (Request τ π)}
    (safe : Guarded call (fun s request => ¬ Strands s request) new
      (history ++ .drainPublications token integrate :: quiet))
    (granted : (.acquireMutator pid owner, .granted (.ok token)) ∈ (replay call new history).2)
    (drained : ∃ count, (call (replay call new history).1
      (.drainPublications token integrate)).2 = .drained (.ok count))
    (silent : ∀ request ∈ quiet, request.mailTo ≠ some pid) :
    let s := (replay call new (history ++ .drainPublications token integrate :: quiet)).1
    ∀ lifecycle, (call s (.releaseMutator token .parked)).2 = .released (.ok lifecycle) →
      lifecycle = .parked ∧
        (call s (.releaseMutator token .parked)).1.lifecycle pid = .ok .parked := by
  intro s lifecycle released
  obtain ⟨safeHistory, safeDrain, safeQuiet⟩ :=
    (guarded_append call (fun s request => ¬ Strands s request) _ _ _).mp safe
  obtain ⟨executes, rfl⟩ := granted_of_mem safeHistory granted
  obtain ⟨count, drained⟩ := drained
  have before := replay_agreeing new_agreeing safeHistory
  have after := (call_step before.wellFormed safeDrain).agreeing before
  have idle := replay_idleAt after (drained_idle drained) safeQuiet silent
  have agreeing := replay_agreeing after safeQuiet
  have same : s = (replay call (call (replay call new history).1
      (.drainPublications token integrate)).1 quiet).1 := replay_append_fst call new history _
  rw [same] at released ⊢
  exact released_parks agreeing idle executes released

def grantOf (ownerGeneration : UInt64) : VmActorMutatorToken :=
  ⟨⟨⟨1⟩, 0, 1⟩, 5, ownerGeneration, .executing⟩

def addMail (value : Nat) (_ : VmActorPublication) (payload : Nat) : Nat := value + payload

/-- An actor gets a message and is executed. -/
def messageRun : List (Request Nat Nat) :=
  [.insert ⟨1⟩ 0, .publishFragment ⟨1⟩ 7, .markQueued ⟨1⟩, .acquireMutator ⟨1⟩ 5]

theorem idle_actor_parks_messageRun :
    let s := (replay call new (messageRun ++ [.drainPublications (grantOf 1) addMail])).1
    ∀ lifecycle, (call s (.releaseMutator (grantOf 1) .parked)).2 = .released (.ok lifecycle) →
      lifecycle = .parked ∧
        (call s (.releaseMutator (grantOf 1) .parked)).1.lifecycle ⟨1⟩ = .ok .parked := by
  refine @idle_actor_parks Nat Nat ⟨1⟩ 5 (grantOf 1) addMail messageRun [] ?_ ?_ ?_ nofun
  · refine ⟨id, id, ?_, id, id, trivial⟩
    rintro ⟨cell, _, resolved, _, _, _, parked⟩
    have notified : ((replay call new (messageRun.take 2)).1.cell ⟨1⟩).map (·.mailbox.wakeState) =
        .ok .notified := by
      decide +kernel
    change (replay call new (messageRun.take 2)).1.cell ⟨1⟩ = .ok cell at resolved
    rw [resolved] at notified
    cases parked.symm.trans (Except.ok.inj notified)
  · have last : (replay call new messageRun).2.getLast? =
        some (.acquireMutator ⟨1⟩ 5, .granted (.ok (grantOf 1))) := rfl
    exact mem_of_getLast? last
  · exact ⟨1, by decide +kernel⟩

/-- The actor parks, a timer wakes it, and it is executed again. -/
def timerRun : List (Request Nat Nat) :=
  messageRun ++
    [.drainPublications (grantOf 1) addMail, .releaseMutator (grantOf 1) .parked,
      .markQueued ⟨1⟩, .acquireMutator ⟨1⟩ 5]

theorem idle_actor_yields :
    ((replay call new timerRun).2.map Prod.snd).getLast? = some (.granted (.ok (grantOf 2))) ∧
      (call (replay call new timerRun).1 (.drainPublications (grantOf 2) addMail)).2 =
        .drained (.ok 0) ∧
      (call (replay call new (timerRun ++ [.drainPublications (grantOf 2) addMail])).1
        (.releaseMutator (grantOf 2) .parked)).2 = .released (.ok .yielding) := by
  decide +kernel

end VmActorDirectory

end Terlan.ActorDirectory
