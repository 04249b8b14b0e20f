/-
  What one atomic operation of a call does to the state word of its cell and to the tokens.
  `WordEffect` lists the possibilities and `step_effect` proves them complete; `step_sound`
  says that a call goes on with what it has read; `step_written` that a call which has changed
  the word does not fail any more.
-/
import Terlan.ActorDirectory.Calls

namespace Terlan.ActorDirectory

open Terlan.Lib CallState
open VmActorDirectoryError

variable {τ π : Type}

/-! ## One operation -/

/-- What a call has read so far, as far as later operations rely on it. -/
def CallState.Sound (handle : VmActorHandle) : CallState π → Prop
  | .acquireLoad _ owner => owner ≠ 0 ∧ owner.toNat < 2 ^ 20
  | .acquireExchange beforeWord afterWord token =>
    (token.owner ≠ 0 ∧ token.owner.toNat < 2 ^ 20) ∧
      ∃ kind : MutatorKind, kind.grant handle token.owner beforeWord = .ok (afterWord, token)
  | .queueExchange beforeWord afterWord =>
    transitionUnowned [.yielding, .parked] .queued beforeWord = .ok afterWord
  | .publishEnqueue _ (.exchange beforeWord afterWord) =>
    transitionUnowned [.parked] .queued beforeWord = .ok afterWord
  | .releaseEnqueue (.exchange beforeWord afterWord) =>
    transitionUnowned [.parked] .queued beforeWord = .ok afterWord
  | .releaseExchange token released beforeWord afterWord => token.handle = handle ∧
      ∃ state, unpackState beforeWord = .ok state ∧
        afterWord = packState released state.actorGeneration state.ownerGeneration 0
  | .controlExchange token beforeWord afterWord => token.handle = handle ∧
      ∃ state, unpackState beforeWord = .ok state ∧
        afterWord = packState token.lifecycle state.actorGeneration state.ownerGeneration 0
  | .releaseValidate token _ => token.handle = handle
  | .releasePark token _ => token.handle = handle
  | .releaseLoad token _ => token.handle = handle
  | .controlValidate token => token.handle = handle
  | .controlLoad token => token.handle = handle
  | _ => True

variable {handle : VmActorHandle} {call : CallState π}

theorem CallState.Sound.held
    {token : VmActorMutatorToken} (h : call.Sound handle) (held : call.held = some token) :
    token.handle = handle := by
  cases call <;> simp only [CallState.held, Option.some.injEq, reduceCtorEq] at held <;>
    subst held
  case releaseExchange => exact h.1
  case controlExchange => exact h.1
  all_goals exact h

def Progress.held : Progress τ π → Option VmActorMutatorToken
  | .running call => call.held
  | .returned _ => none

def Progress.granted : Progress τ π → Option VmActorMutatorToken
  | .returned (.ok (.granted token)) => some token
  | _ => none

/-- What one operation of a call does to the state word and to the tokens: the one the call
had taken, the one it has left, the one it hands out. -/
inductive WordEffect (handle : VmActorHandle) (before after : UInt64) :
    Option VmActorMutatorToken → Option VmActorMutatorToken → Option VmActorMutatorToken →
      Prop where
  | unchanged {held held' : Option VmActorMutatorToken} (same : after = before)
      (kept : held' = held ∨ held' = none) : WordEffect handle before after held held' none
  | moved {state : VmActorState} {lifecycle : VmActorLifecycle}
      (read : unpackState before = .ok state) (unowned : state.owner = 0)
      (write : unpackState after = .ok { state with lifecycle, owner := 0 }) :
      WordEffect handle before after none none none
  | granted {state : VmActorState} {token : VmActorMutatorToken}
      (read : unpackState before = .ok state) (unowned : state.owner = 0)
      (own : token.handle = handle) (nonzero : token.owner ≠ 0)
      (write : unpackState after = .ok
        ⟨token.lifecycle, state.actorGeneration, token.ownerGeneration, token.owner⟩) :
      WordEffect handle before after none none (some token)
  | released {state : VmActorState} {token : VmActorMutatorToken}
      {lifecycle : VmActorLifecycle} (read : unpackState before = .ok state)
      (write : unpackState after = .ok { state with lifecycle, owner := 0 }) :
      WordEffect handle before after (some token) none none

theorem transitionUnowned_ok {allowed : List VmActorLifecycle} {next : VmActorLifecycle}
    {word after : UInt64} (run : transitionUnowned allowed next word = .ok after) :
    ∃ state, unpackState word = .ok state ∧ state.owner = 0 ∧ state.lifecycle ∈ allowed ∧
      unpackState after = .ok { state with lifecycle := next, owner := 0 } := by
  obtain ⟨state, read, rest⟩ := except_bind_ok_iff.mp run
  obtain ⟨unowned, rest⟩ := check_bind_ok_iff.mp rest
  obtain ⟨allowed, same⟩ := check_bind_ok_iff.mp rest
  cases same
  exact ⟨state, read, not_not.mp (failIf_ok_iff.mp unowned),
    not_not.mp (failIf_ok_iff.mp allowed), unpackState_unowned read next⟩

theorem admit_ok {kind : MutatorKind} {before : VmActorState} {lifecycle : VmActorLifecycle}
    (run : kind.admit before = .ok lifecycle) :
    before.owner = 0 ∧ (lifecycle = .executing ∨ lifecycle = before.lifecycle) := by
  obtain ⟨unowned, rest⟩ := check_bind_ok_iff.mp run
  have free := (not_or.mp (failIf_ok_iff.mp unowned)).1
  refine ⟨not_not.mp free, ?_⟩
  cases kind with
  | execution =>
    obtain ⟨_, same⟩ := check_bind_ok_iff.mp rest
    cases same
    exact .inl rfl
  | control =>
    obtain ⟨_, same⟩ := check_bind_ok_iff.mp rest
    cases same
    exact .inr rfl

theorem grant_ok {kind : MutatorKind} {owner word after : UInt64}
    {token : VmActorMutatorToken} (run : kind.grant handle owner word = .ok (after, token))
    (fits : owner.toNat < 2 ^ 20) :
    ∃ state, unpackState word = .ok state ∧ state.owner = 0 ∧ token.handle = handle ∧
      token.owner = owner ∧ (token.lifecycle = .executing ∨ token.lifecycle = state.lifecycle) ∧
      unpackState after = .ok
        ⟨token.lifecycle, state.actorGeneration, token.ownerGeneration, token.owner⟩ := by
  obtain ⟨state, read, rest⟩ := except_bind_ok_iff.mp run
  obtain ⟨lifecycle, admitted, same⟩ := except_bind_ok_iff.mp rest
  cases same
  obtain ⟨unowned, kept⟩ := admit_ok admitted
  refine ⟨state, read, unowned, rfl, rfl, kept, unpackState_write read lifecycle ?_ fits⟩
  rw [nextGeneration_toNat (unpackState_fits read).2.1]
  have := (unpackState_fits read).2.1
  split <;> omega

variable {next : Except VmActorDirectoryError (CallState π)} {held : Option VmActorMutatorToken}

theorem proceed_held (keeps : ∀ call, next = .ok call → call.held = held) :
    (Progress.proceed next : Progress τ π).held = held ∨
      (Progress.proceed next : Progress τ π).held = none := by
  cases next with
  | error e => exact .inr rfl
  | ok call => exact .inl (keeps call rfl)

theorem proceed_granted (next : Except VmActorDirectoryError (CallState π)) :
    (Progress.proceed next : Progress τ π).granted = none := by
  cases next <;> rfl

/-- A load leaves the word and keeps the token, unless it ends the call. -/
theorem WordEffect.load {word : UInt64} (keeps : ∀ call, next = .ok call → call.held = held) :
    WordEffect handle word word held (Progress.proceed next : Progress τ π).held
      (Progress.proceed next : Progress τ π).granted := by
  rw [proceed_granted]
  exact .unchanged rfl (proceed_held keeps)

theorem WordEffect.same {word : UInt64} : WordEffect handle word word held held none :=
  .unchanged rfl (.inl rfl)

theorem WordEffect.ended {word : UInt64} : WordEffect handle word word held none none :=
  .unchanged rfl (.inr rfl)

theorem WordEffect.transition {allowed : List VmActorLifecycle}
    {next : VmActorLifecycle} {before after : UInt64}
    (run : transitionUnowned allowed next before = .ok after) :
    WordEffect handle before after none none none := by
  obtain ⟨state, read, unowned, _, write⟩ := transitionUnowned_ok run
  exact .moved read unowned write

variable {cell : VmActorCell τ π}

/-- The two operations of `enqueue_notified_parked`, for either caller. -/
theorem enqueue_effect {enqueue : EnqueueState}
    (sound : ∀ before after, enqueue = .exchange before after →
      transitionUnowned [.parked] .queued before = .ok after) :
    WordEffect cell.handle cell.state (cell.enqueueNotifiedParked enqueue).1.state none none
      none := by
  cases enqueue with
  | load =>
    rw [VmActorCell.enqueueNotifiedParked]
    split
    next => exact .same
    next => split <;> exact .same
  | exchange before after =>
    rw [VmActorCell.enqueueNotifiedParked]
    split
    next same =>
      rw [same]
      exact .transition (sound before after rfl)
    next => exact .same

theorem preparePark_state (cell : VmActorCell τ π) (park : ParkState) :
    (cell.preparePark park).1.state = cell.state ∧
      (cell.preparePark park).1.handle = cell.handle := by
  cases park <;> rw [VmActorCell.preparePark]
  case cancel => exact ⟨rfl, rfl⟩
  all_goals split <;> exact ⟨rfl, rfl⟩

/-- One operation of a sound call. -/
theorem step_effect (sound : call.Sound cell.handle) :
    WordEffect cell.handle cell.state (call.step cell).1.state call.held
      (call.step cell).2.held (call.step cell).2.granted := by
  cases call with
  | publishState payload =>
    refine .load fun call run => ?_
    obtain ⟨_, _, rest⟩ := except_bind_ok_iff.mp run
    obtain ⟨_, same⟩ := check_bind_ok_iff.mp rest
    cases same
    rfl
  | publishAdmit | publishPush | releaseRecheck | drainPop | drainInspect =>
    rw [step]
    split <;> exact .same
  | publishSequence | publishWithdraw | drainAdmitted => exact .same
  | publishNotify | drainActivate =>
    rw [step]
    dsimp only
    split <;> exact .same
  | publishEnqueue publication enqueue | releaseEnqueue enqueue =>
    have effect := @enqueue_effect τ π cell enqueue fun before after eq => by
      rw [eq] at sound
      exact sound
    rw [step]
    split
    next cell' enqueue' run =>
      rw [run] at effect
      exact effect
    next cell' result run =>
      rw [run] at effect
      cases result <;> exact effect
  | queueState =>
    rw [step]
    split
    next => exact .same
    next => split <;> exact .same
  | queueLoad | releaseLoad | controlLoad =>
    refine .load fun call run => ?_
    obtain ⟨_, _, same⟩ := except_bind_ok_iff.mp run
    cases same
    rfl
  | queueExchange before after =>
    rw [step]
    split
    next same =>
      rw [same]
      exact .transition sound
    next => exact .same
  | acquireLoad kind owner =>
    refine .load fun call run => ?_
    obtain ⟨⟨_, _⟩, _, same⟩ := except_bind_ok_iff.mp run
    cases same
    rfl
  | acquireExchange before after token =>
    obtain ⟨⟨nonzero, fits⟩, kind, run⟩ := sound
    rw [step]
    split
    next same =>
      obtain ⟨state, read, unowned, own, _, _, write⟩ := grant_ok run fits
      rw [same]
      exact .granted read unowned own nonzero write
    next => exact .same
  | releaseValidate token next =>
    refine .load fun call run => ?_
    obtain ⟨_, same⟩ := check_bind_ok_iff.mp run
    cases same
    split <;> rfl
  | releasePark token park =>
    have kept := (preparePark_state cell park).1
    rw [step]
    split
    next cell' park' run =>
      rw [run] at kept
      exact .unchanged kept (.inl rfl)
    next cell' ready run =>
      rw [run] at kept
      exact .unchanged kept (.inl rfl)
  | releaseExchange token released before after =>
    obtain ⟨_, state, read, rfl⟩ := sound
    rw [step]
    split
    next same =>
      have write := unpackState_unowned read released
      rw [same]
      dsimp only
      split
      next => exact .released read write
      next => exact .released read write
    next => exact .ended
  | controlValidate | drainValidate =>
    refine .load fun call run => ?_
    obtain ⟨_, same⟩ := check_bind_ok_iff.mp run
    cases same
    rfl
  | controlExchange token before after =>
    obtain ⟨_, state, read, rfl⟩ := sound
    rw [step]
    split
    next same =>
      rw [same]
      exact .released read (unpackState_unowned read token.lifecycle)
    next => exact .ended

theorem enqueue_handle (cell : VmActorCell τ π) (enqueue : EnqueueState) :
    (cell.enqueueNotifiedParked enqueue).1.handle = cell.handle := by
  cases enqueue <;> rw [VmActorCell.enqueueNotifiedParked]
  case load => split <;> [rfl; (split <;> rfl)]
  case exchange => split <;> rfl

@[simp] theorem step_handle (cell : VmActorCell τ π) (call : CallState π) :
    (call.step cell).1.handle = cell.handle := by
  cases call with
  | publishEnqueue publication enqueue | releaseEnqueue enqueue =>
    have kept := enqueue_handle cell enqueue
    rw [step]
    split <;> next run => rw [run] at kept; exact kept
  | releasePark token park =>
    have kept := (preparePark_state cell park).2
    rw [step]
    split <;> next run => rw [run] at kept; exact kept
  | queueState =>
    rw [step]
    split <;> [rfl; (split <;> rfl)]
  | drainActivate token drained =>
    rw [step]
    dsimp only
    split <;> rfl
  | _ =>
    first
      | rfl
      | rw [step]; split <;> rfl

theorem proceed_running (run : (Progress.proceed next : Progress τ π) = .running call) :
    next = .ok call := by
  cases next with
  | error e => cases run
  | ok _ => cases run; rfl

theorem enqueue_sound {enqueue enqueue' : EnqueueState}
    {cell' : VmActorCell τ π} (run : cell.enqueueNotifiedParked enqueue = (cell', .inl enqueue')) :
    ∃ afterWord, enqueue' = .exchange cell.state afterWord ∧
      transitionUnowned [.parked] .queued cell.state = .ok afterWord := by
  cases enqueue with
  | load =>
    rw [VmActorCell.enqueueNotifiedParked] at run
    split at run
    next => cases run
    next before read =>
      split at run
      next => cases run
      next fits =>
        obtain ⟨parked, unowned⟩ := not_or.mp fits
        cases run
        refine ⟨_, rfl, ?_⟩
        unfold transitionUnowned
        rw [read]
        have free : failIf (before.owner ≠ 0)
            (alreadyOwned before.owner before.ownerGeneration) = .ok () :=
          failIf_ok_iff.mpr unowned
        have allowed : failIf (before.lifecycle ∉ [VmActorLifecycle.parked])
            (invalidTransition before.lifecycle .queued) = .ok () :=
          failIf_ok_iff.mpr (by simpa using parked)
        change (failIf _ _ >>= fun _ => failIf _ _ >>= fun _ => _) = _
        rw [free]
        change (failIf _ _ >>= fun _ => _) = _
        rw [allowed]
        rfl
  | exchange before after =>
    rw [VmActorCell.enqueueNotifiedParked] at run
    split at run <;> cases run

/-- What a sound call reads is what it goes on with. -/
theorem step_sound {call next : CallState π}
    (sound : call.Sound cell.handle) (run : (call.step cell).2 = .running next) :
    next.Sound cell.handle := by
  cases call with
  | publishState payload =>
    obtain ⟨_, _, rest⟩ := except_bind_ok_iff.mp (proceed_running run)
    obtain ⟨_, same⟩ := check_bind_ok_iff.mp rest
    cases same
    trivial
  | publishAdmit | releaseRecheck | drainInspect =>
    rw [step] at run
    split at run <;> cases run
    trivial
  | publishSequence | drainAdmitted =>
    cases run
    trivial
  | publishPush | drainPop =>
    rw [step] at run
    split at run <;> cases run <;> trivial
  | publishWithdraw | drainActivate => cases run
  | publishNotify publication =>
    rw [step] at run
    dsimp only at run
    split at run <;> cases run
    trivial
  | publishEnqueue | releaseEnqueue =>
    rw [step] at run
    split at run
    next cell' enqueue' step =>
      cases run
      obtain ⟨afterWord, rfl, sound⟩ := enqueue_sound step
      exact sound
    next => cases run
  | queueState =>
    rw [step] at run
    split at run
    · cases run
    split at run <;> cases run
    trivial
  | queueLoad =>
    obtain ⟨afterWord, move, same⟩ := except_bind_ok_iff.mp (proceed_running run)
    cases same
    exact move
  | queueExchange | acquireExchange | controlExchange =>
    rw [step] at run
    split at run <;> cases run
  | acquireLoad kind owner =>
    obtain ⟨⟨afterWord, token⟩, granted, same⟩ := except_bind_ok_iff.mp (proceed_running run)
    cases same
    obtain ⟨_, _, _, _, owned, _⟩ := grant_ok granted sound.2
    refine ⟨?_, kind, ?_⟩
    · rw [owned]
      exact sound
    · rw [owned]
      exact granted
  | releaseValidate token next =>
    obtain ⟨_, same⟩ := check_bind_ok_iff.mp (proceed_running run)
    cases same
    split <;> exact sound
  | releasePark token park =>
    rw [step] at run
    split at run <;> cases run <;> exact sound
  | releaseLoad | controlLoad =>
    obtain ⟨state, read, same⟩ := except_bind_ok_iff.mp (proceed_running run)
    cases same
    exact ⟨sound, state, read, rfl⟩
  | releaseExchange token released before after =>
    rw [step] at run
    split at run
    next =>
      dsimp only at run
      split at run <;> cases run
      trivial
    next => cases run
  | controlValidate token =>
    obtain ⟨_, same⟩ := check_bind_ok_iff.mp (proceed_running run)
    cases same
    exact sound
  | drainValidate token =>
    obtain ⟨_, same⟩ := check_bind_ok_iff.mp (proceed_running run)
    cases same
    trivial

/-! ### Refusals -/

/-- The call has changed the state word, and what is left of it cannot fail. -/
def CallState.Written : CallState π → Prop
  | .releaseRecheck => True
  | .releaseEnqueue _ => True
  | _ => False

def Progress.Settled : Progress τ π → Prop
  | .running call => call.Written
  | .returned result => result.isOk

theorem enqueue_settled {cell cell' : VmActorCell τ π} {enqueue : EnqueueState}
    {result : Except VmActorDirectoryError Bool}
    (word : ∃ state, unpackState cell.state = .ok state)
    (run : cell.enqueueNotifiedParked enqueue = (cell', .inr result)) : result.isOk := by
  obtain ⟨state, read⟩ := word
  cases enqueue with
  | load =>
    rw [VmActorCell.enqueueNotifiedParked, read] at run
    dsimp only at run
    split at run <;> cases run
    rfl
  | exchange before after =>
    rw [VmActorCell.enqueueNotifiedParked, read] at run
    split at run <;> cases run <;> rfl

/-- A call that has changed the state word, now or before, does not fail any more. -/
theorem step_written (word : ∃ state, unpackState cell.state = .ok state)
    (written : call.Written ∨ (call.step cell).1.state ≠ cell.state) :
    (call.step cell).2.Settled := by
  cases call with
  | publishEnqueue publication enqueue =>
    have changes := written.resolve_left id
    rw [step] at changes ⊢
    split at changes
    next cell' enqueue' run =>
      cases enqueue with
      | load =>
        rw [VmActorCell.enqueueNotifiedParked] at run
        split at run
        next => cases run
        next => split at run <;> cases run; exact absurd rfl changes
      | exchange before after =>
        rw [VmActorCell.enqueueNotifiedParked] at run
        split at run <;> cases run
    next cell' result run =>
      have ok := enqueue_settled word run
      cases result with
      | error e => cases ok
      | ok _ => rfl
  | releaseEnqueue enqueue =>
    rw [step]
    split
    next => trivial
    next cell' result run =>
      have ok := enqueue_settled word run
      cases result with
      | error e => cases ok
      | ok _ => rfl
  | releaseRecheck =>
    rw [step]
    split <;> trivial
  | queueExchange | acquireExchange | controlExchange =>
    have changes := written.resolve_left id
    rw [step] at changes ⊢
    split
    next => rfl
    next differs => rw [if_neg differs] at changes; exact absurd rfl changes
  | releaseExchange token released before after =>
    have changes := written.resolve_left id
    rw [step] at changes ⊢
    split
    next => dsimp only; split <;> trivial
    next differs => rw [if_neg differs] at changes; exact absurd rfl changes
  | releasePark token park =>
    have changes := written.resolve_left id
    have kept := (preparePark_state cell park).1
    rw [step] at changes
    split at changes <;> next run => rw [run] at kept; exact absurd kept changes
  | queueState =>
    have changes := written.resolve_left id
    rw [step] at changes
    split at changes
    next => exact absurd rfl changes
    next => split at changes <;> exact absurd rfl changes
  | drainActivate token drained =>
    have changes := written.resolve_left id
    rw [step] at changes
    dsimp only at changes
    split at changes <;> exact absurd rfl changes
  | _ =>
    have changes := written.resolve_left id
    rw [step] at changes
    first
      | exact absurd rfl changes
      | split at changes <;> exact absurd rfl changes

end Terlan.ActorDirectory
