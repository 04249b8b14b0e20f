/-
  A sound directory as its one caller sees it: a map from identities to actors, each with its
  value, the fragments that wait for it and its lifecycle. Every method is refused and changes
  nothing, or changes one entry of the map; its `_cases` lemma says when and how.
-/
import Mathlib.Data.List.Infix
import Terlan.ActorDirectory.SequentialSpec

namespace Terlan.ActorDirectory

open Terlan.Lib VmActorLifecycle List Function
open Std (ExtTreeMap)
open VmActorDirectoryError

variable {τ π α : Type}

/-! ## What one caller sees -/

/-- An actor as its directory shows it: its value, the fragments that wait for it, and its
lifecycle. -/
structure VmActorView (τ π : Type) where
  value : τ
  pending : List (VmPublishedFragment π)
  lifecycle : VmActorLifecycle

/-- The value with everything that waits for it. -/
def VmActorView.integrated (actor : VmActorView τ π)
    (integrate : τ → VmActorPublication → π → τ) : τ :=
  actor.pending.foldl
    (fun value fragment => integrate value fragment.publication fragment.payload) actor.value

def VmActorCell.view (cell : VmActorCell τ π) : VmActorView τ π :=
  ⟨cell.value, cell.mailbox.queue, cell.current.lifecycle⟩

namespace VmActorDirectory

def view (self : VmActorDirectory τ π) (pid : VmProcessId) : Option (VmActorView τ π) :=
  match self.cell pid with
  | .ok cell => some cell.view
  | .error _ => none

/-- One actor changes, and the directory stays sound. -/
structure Becomes (before : VmActorDirectory τ π) (pid : VmProcessId) (actor : VmActorView τ π)
    (after : VmActorDirectory τ π) : Prop where
  sound : after.Sound
  view : after.view = Function.update before.view pid (some actor)

variable {self : VmActorDirectory τ π} {pid : VmProcessId} {actor : VmActorView τ π}

theorem Becomes.found {after : VmActorDirectory τ π} (h : self.Becomes pid actor after) :
    after.view pid = some actor := by
  rw [h.view, update_self]

/-- The same actor changes again. -/
theorem Becomes.again {actor' : VmActorView τ π} {between after : VmActorDirectory τ π}
    (first : self.Becomes pid actor between) (second : between.Becomes pid actor' after) :
    self.Becomes pid actor' after where
  sound := second.sound
  view := by rw [second.view, first.view, update_idem]

theorem view_eq_some_iff : self.view pid = some actor ↔
    ∃ cell, self.cell pid = .ok cell ∧ cell.view = actor := by
  unfold view
  cases self.cell pid with
  | error | ok => simp

theorem view_eq_none_iff : self.view pid = none ↔ self.cell pid = .error (missingActor pid) := by
  unfold view VmActorDirectory.cell
  split
  next cell resolved =>
    split at resolved
    · cases resolved
    split at resolved
    · cases resolved
    cases resolved
    simp_all
  next e resolved =>
    split at resolved
    · simp_all
    split at resolved
    next => simp_all
    next => cases resolved

theorem cell_new (pid : VmProcessId) :
    (new : VmActorDirectory τ π).cell pid = .error (missingActor pid) := by
  have empty : (∅ : ExtTreeMap VmProcessId Nat)[pid]? = none := ExtTreeMap.getElem?_empty
  unfold VmActorDirectory.cell new
  rw [empty]

theorem view_new (pid : VmProcessId) : (new : VmActorDirectory τ π).view pid = none :=
  view_eq_none_iff.mpr (cell_new pid)

theorem sound_new : (new : VmActorDirectory τ π).Sound where
  wellFormed := new_wellFormed
  cells pid cell resolved := by
    rw [cell_new] at resolved
    cases resolved

theorem get_eq_view (self : VmActorDirectory τ π) (pid : VmProcessId) :
    self.get pid = (self.view pid).map (·.value) := by
  unfold get view
  cases self.cell pid with
  | error | ok => rfl

theorem contains_eq_view (h : self.WellFormed) (pid : VmProcessId) :
    self.contains pid = (self.view pid).isSome := by
  unfold contains view VmActorDirectory.cell
  cases indexed : self.actorSlots[pid]? with
  | none => rw [Bool.eq_iff_iff, ExtTreeMap.contains_iff_mem, ExtTreeMap.mem_iff_isSome_getElem?,
      indexed]; rfl
  | some slot =>
    obtain ⟨cell, found, _⟩ := h.indexed pid slot indexed
    rw [Bool.eq_iff_iff, ExtTreeMap.contains_iff_mem, ExtTreeMap.mem_iff_isSome_getElem?, indexed]
    simp [found]

theorem Sound.becomes (h : self.Sound) {old cell : VmActorCell τ π}
    (resolved : self.cell pid = .ok old) (sound : cell.Sound) (same : cell.handle = old.handle) :
    self.Becomes pid cell.view (self.setCell cell) where
  sound := h.setCell resolved same sound
  view := by
    funext other
    rw [update_apply, view, cell_setCell h.wellFormed resolved same]
    by_cases own : other = pid
    · rw [if_pos own, if_pos own]
    · rw [if_neg own, if_neg own, view]

theorem Sound.becomes_read (h : self.Sound) {old cell : VmActorCell τ π}
    (resolved : self.cell pid = .ok old) (sound : cell.Sound) (same : cell.handle = old.handle)
    {state : VmActorState} (word : unpackState cell.state = .ok state) :
    self.Becomes pid ⟨cell.value, cell.mailbox.queue, state.lifecycle⟩ (self.setCell cell) := by
  rw [← VmActorCell.current_eq word]
  exact h.becomes resolved sound same

variable {cell : VmActorCell τ π}

/-- A token is used on the actor that its handle names. -/
theorem Sound.resolves (h : self.Sound) {handle : VmActorHandle}
    (resolved : self.cellForHandle handle = .ok cell) :
    self.cell handle.pid = .ok cell ∧ cell.handle = handle := by
  obtain ⟨found, same⟩ := cellForHandle_ok_iff.mp resolved
  exact ⟨h.wellFormed.cell_ok_iff.mpr ⟨by rw [same]; exact found, by rw [same]⟩, same⟩

/-! ### Methods -/

theorem view_awakened (sound : cell.Sound) :
    cell.awakened.view =
      if cell.view.lifecycle = .parked then { cell.view with lifecycle := .queued }
      else cell.view := by
  have current := VmActorCell.current_awakened sound
  have rest : cell.awakened.value = cell.value ∧ cell.awakened.mailbox = cell.mailbox := by
    unfold VmActorCell.awakened
    split
    next => exact ⟨rfl, rfl⟩
    next => exact ⟨rfl, rfl⟩
  rw [VmActorCell.view, current, rest.1, rest.2]
  change _ = if cell.current.lifecycle = .parked then _ else _
  split
  next => rfl
  next => rfl

theorem view_published (sound : cell.Sound)
    (room : cell.mailbox.queue.length < actorMailboxCapacity) (payload : π) :
    ∃ lifecycle, (lifecycle = cell.view.lifecycle ∨
        cell.view.lifecycle = .parked ∧ lifecycle = .queued) ∧
      (cell.published payload).view =
        { cell.view with
          pending := cell.view.pending ++ [⟨⟨cell.handle, cell.mailbox.sequence⟩, payload⟩]
          lifecycle } := by
  unfold VmActorCell.published
  split
  next =>
    rw [view_awakened (sound.notified room payload)]
    split
    next parked => exact ⟨.queued, .inr ⟨parked, rfl⟩, rfl⟩
    next => exact ⟨_, .inl rfl, rfl⟩
  next => exact ⟨_, .inl rfl, rfl⟩

theorem published_handle (cell : VmActorCell τ π) (payload : π) :
    (cell.published payload).handle = cell.handle := by
  unfold VmActorCell.published VmActorCell.awakened
  split
  next =>
    split
    next => rfl
    next => rfl
  next => rfl

theorem Sound.publishFragment_cases (h : self.Sound) (found : self.view pid = some actor)
    (payload : π) : (∃ e, Method.call (publishFragment pid payload) self = (self, .error e) ∧
      (actor.lifecycle ∈ [exiting, .retired] ∨ actorMailboxCapacity ≤ actor.pending.length)) ∨
      ∃ after publication wake lifecycle,
        Method.call (publishFragment pid payload) self = (after, .ok (publication, wake)) ∧
        actor.lifecycle ∉ [exiting, .retired] ∧ actor.pending.length < actorMailboxCapacity ∧
        (lifecycle = actor.lifecycle ∨ actor.lifecycle = .parked ∧ lifecycle = .queued) ∧
        self.Becomes pid
          { actor with pending := actor.pending ++ [⟨publication, payload⟩], lifecycle } after := by
  obtain ⟨cell, resolved, rfl⟩ := view_eq_some_iff.mp found
  have sound := h.cells pid cell resolved
  have run : Method.call (publishFragment pid payload) self = _ := call_onCell_ok resolved _
  rw [sound.call_publishFragment] at run
  have admitted := VmActorCell.publishable_ok_iff sound
  cases refused : cell.publishable with
  | error e =>
    rw [refused, setCell_self h.wellFormed resolved] at run
    rw [refused] at admitted
    refine .inl ⟨e, run, ?_⟩
    by_contra opened
    rw [not_or, not_le] at opened
    exact absurd (admitted.mpr opened) (by simp)
  | ok _ =>
    rw [refused] at run admitted
    obtain ⟨opened, room⟩ := admitted.mp rfl
    obtain ⟨lifecycle, moved, seen⟩ := view_published sound room payload
    refine .inr ⟨_, _, _, lifecycle, run, opened, room, moved, ?_⟩
    rw [← seen]
    exact h.becomes resolved (sound.published room payload) (published_handle cell payload)

/-- What a mutation under a control grant does, up to the grant. -/
theorem Sound.becomes_settled (h : self.Sound)
    (resolved : self.cell pid = .ok cell) (free : cell.current.lifecycle ≠ .executing)
    {mailbox : VmActorMailbox π} (counted : mailbox.admitted = mailbox.queue.length)
    (bounded : mailbox.queue.length ≤ actorMailboxCapacity) (value : τ) :
    self.Becomes pid ⟨value, mailbox.queue, cell.current.lifecycle⟩
      (self.setCell { cell with state := cell.relinquished, mailbox, value }) := by
  have sound := h.cells pid cell resolved
  have moved := h.becomes_read resolved (sound.settled free counted bounded value) rfl
    sound.unpackState_relinquished
  exact moved

theorem transitionUnowned_eq (sound : cell.Sound)
    (allowed : List VmActorLifecycle) (next : VmActorLifecycle) :
    transitionUnowned allowed next cell.state =
      if cell.current.lifecycle = .executing then
        .error (alreadyOwned cell.current.owner cell.current.ownerGeneration)
      else if cell.current.lifecycle ∈ allowed then
        .ok (packState next cell.current.actorGeneration cell.current.ownerGeneration 0)
      else .error (invalidTransition cell.current.lifecycle next) := by
  unfold transitionUnowned failIf
  rw [sound.readable]
  by_cases busy : cell.current.lifecycle = .executing
  · rw [if_pos busy]
    simp only [bind, Except.bind, if_pos (sound.owned.mpr busy)]
  rw [if_neg busy]
  simp only [bind, Except.bind, sound.free busy, ne_eq, not_true_eq_false, if_false]
  by_cases legal : cell.current.lifecycle ∈ allowed
  · rw [if_pos legal, if_neg (not_not.mpr legal)]
    rfl
  · rw [if_neg legal, if_pos legal]

/-- An operation that moves an unowned actor to another lifecycle. -/
theorem Sound.transition_cases (h : self.Sound) (found : self.view pid = some actor)
    (allowed : List VmActorLifecycle) {next : VmActorLifecycle}
    (settled : next ∉ [executing, .migrating, .reclaimed]) :
    (∃ e, self.transition pid allowed next = (self, .error e) ∧
      (actor.lifecycle = .executing ∨ actor.lifecycle ∉ allowed)) ∨
      ∃ after, self.transition pid allowed next = (after, .ok ()) ∧
        actor.lifecycle ≠ .executing ∧ actor.lifecycle ∈ allowed ∧
        self.Becomes pid { actor with lifecycle := next } after := by
  obtain ⟨cell, resolved, rfl⟩ := view_eq_some_iff.mp found
  have sound := h.cells pid cell resolved
  unfold VmActorDirectory.transition
  rw [resolved]
  dsimp only
  rw [transitionUnowned_eq sound]
  by_cases busy : cell.current.lifecycle = .executing
  · rw [if_pos busy]
    exact .inl ⟨_, rfl, .inl busy⟩
  rw [if_neg busy]
  by_cases legal : cell.current.lifecycle ∈ allowed
  · rw [if_pos legal]
    have word := unpackState_unowned sound.readable next
    have after : VmActorCell.Sound
        { cell with
          state := packState next cell.current.actorGeneration cell.current.ownerGeneration 0 } :=
      sound.unowned word rfl settled sound.counted sound.bounded
    exact .inr ⟨_, rfl, busy, legal, h.becomes_read resolved after rfl word⟩
  · rw [if_neg legal]
    exact .inl ⟨_, rfl, .inr legal⟩

theorem Sound.markExiting_cases (h : self.Sound) (found : self.view pid = some actor) :
    (∃ e, self.markExiting pid = (self, .error e) ∧ actor.lifecycle ∈ [executing, .retired]) ∨
      ∃ after, self.markExiting pid = (after, .ok ()) ∧ actor.lifecycle ∉ [executing, .retired] ∧
        self.Becomes pid { actor with lifecycle := .exiting } after := by
  obtain ⟨cell, resolved, same⟩ := view_eq_some_iff.mp found
  have sound := h.cells pid cell resolved
  have present := sound.present
  simp only [mem_cons, not_mem_nil, or_false, not_or] at present
  have lifecycle : cell.current.lifecycle = actor.lifecycle := by rw [← same]; rfl
  have read : self.lifecycle pid = .ok actor.lifecycle := by
    unfold VmActorDirectory.lifecycle
    rw [resolved]
    simp only [bind, Except.bind, sound.readable, lifecycle]
    rfl
  rw [lifecycle] at present
  unfold VmActorDirectory.markExiting
  rw [read]
  dsimp only
  by_cases ending : actor.lifecycle = .exiting
  · right
    rw [if_pos ending]
    refine ⟨self, rfl, by simp [ending], h, ?_⟩
    rw [← ending, ← found, update_eq_self]
  · rw [if_neg ending]
    rcases h.transition_cases found [.queued, .yielding, .parked, .migrating]
        (show exiting ∉ _ by decide) with
      ⟨e, run, refused⟩ | ⟨after, run, idle, legal, becomes⟩
    · refine .inl ⟨e, run, ?_⟩
      revert refused ending present
      cases actor.lifecycle <;> decide
    · refine .inr ⟨after, run, ?_, becomes⟩
      revert legal
      cases actor.lifecycle <;> decide

theorem Sound.markRetired_cases (h : self.Sound) (found : self.view pid = some actor) :
    (∃ e, self.markRetired pid = (self, .error e) ∧ actor.lifecycle ≠ .exiting) ∨
      ∃ after, self.markRetired pid = (after, .ok ()) ∧ actor.lifecycle = .exiting ∧
        self.Becomes pid { actor with lifecycle := .retired } after := by
  rcases h.transition_cases found [.exiting] (show VmActorLifecycle.retired ∉ _ by decide) with
    ⟨e, run, refused⟩ | ⟨after, run, idle, legal, becomes⟩
  · refine .inl ⟨e, run, ?_⟩
    revert refused
    cases actor.lifecycle <;> decide
  · exact .inr ⟨after, run, mem_singleton.mp legal, becomes⟩

theorem new_sound {handle : VmActorHandle} (fits : handle.actorGeneration.toNat < 2 ^ 20)
    (value : τ) : (VmActorCell.new handle value : VmActorCell τ π).Sound ∧
      (VmActorCell.new handle value : VmActorCell τ π).view = ⟨value, [], .yielding⟩ := by
  have word : unpackState (VmActorCell.new handle value : VmActorCell τ π).state =
      .ok ⟨.yielding, handle.actorGeneration, 0, 0⟩ := by
    unfold VmActorCell.new
    rw [unpackState_packState, and_generationMask fits]
    rfl
  have current := VmActorCell.current_eq word
  refine ⟨⟨by rw [current, word], by rw [current]; rfl, rfl, Nat.zero_le _, ?_, ?_⟩, ?_⟩
  · rw [current]
    simp
  · rw [current]
    simp
  · rw [VmActorCell.view, current]
    rfl

theorem nextGeneration_lt (current : UInt64) : (nextGeneration current).toNat < 2 ^ 20 := by
  have bound := and_generationMask_lt (current + 1)
  unfold nextGeneration
  rw [UInt64.toNat_max, show (1 : UInt64).toNat = 1 from rfl]
  omega

/-- An insertion is refused or adds an actor that has not run. -/
theorem Sound.insert_cases (h : self.Sound) (pid : VmProcessId) (value : τ) :
    (∃ e, self.insert pid value = (self, .error e)) ∨
      ∃ after handle, self.insert pid value = (after, .ok handle) ∧ self.view pid = none ∧
        self.Becomes pid ⟨value, [], .yielding⟩ after := by
  rcases h.wellFormed.insert_cases pid value with
    refused | ⟨after, run, absent, empty, wellFormed, cells, generations⟩
  · exact .inl refused
  obtain ⟨handle, named⟩ : ∃ handle : VmActorHandle, handle =
      ⟨pid, self.nextSlot, nextGeneration (self.generationAt self.nextSlot)⟩ := ⟨_, rfl⟩
  have fits : handle.actorGeneration.toNat < 2 ^ 20 := by
    rw [named]
    exact nextGeneration_lt _
  obtain ⟨sound, seen⟩ := new_sound (τ := τ) (π := π) fits value
  rw [← named] at run cells
  have found : ∀ other cell, after.cell other = .ok cell ↔
      if other = pid then cell = .new handle value else self.cell other = .ok cell := by
    intro other cell
    have slot : handle.slot = self.nextSlot := by rw [named]
    have owner : handle.pid = pid := by rw [named]
    by_cases own : other = pid
    · rw [if_pos own, wellFormed.cell_ok_iff, cells]
      constructor
      · rintro ⟨inside, belongs⟩
        split at inside
        · exact (Option.some_inj.mp inside).symm
        have indexed := (h.wellFormed.occupied _ cell inside).2
        rw [belongs, own, absent] at indexed
        cases indexed
      · rintro rfl
        exact ⟨if_pos slot, by rw [own]; exact owner⟩
    · rw [if_neg own, wellFormed.cell_ok_iff, h.wellFormed.cell_ok_iff, cells]
      refine and_congr_left fun belongs => ?_
      by_cases last : cell.handle.slot = self.nextSlot
      · rw [if_pos last, last, empty, Option.some_inj]
        refine iff_of_false (fun same => own ?_) (by simp)
        rw [← belongs, ← same]
        exact owner
      · rw [if_neg last]
  refine .inr ⟨after, _, run, ?_, ⟨wellFormed, fun other cell resolved => ?_⟩, ?_⟩
  · unfold view VmActorDirectory.cell
    rw [absent]
  · have same := (found other cell).mp resolved
    split at same
    next =>
      rw [same]
      exact sound
    next => exact h.cells other cell same
  · funext other
    rw [update_apply]
    apply Option.ext
    intro actor
    rw [view_eq_some_iff]
    simp only [found]
    split
    next =>
      rw [Option.some_inj, ← seen]
      simp
    next => exact view_eq_some_iff.symm

theorem Sound.markQueued_cases (h : self.Sound) (pid : VmProcessId) :
    (∃ e, Method.call (markQueued pid) self = (self, .error e)) ∨
      ∃ after actor, Method.call (markQueued pid) self = (after, .ok ()) ∧
        self.view pid = some actor ∧
        actor.lifecycle ∈ [VmActorLifecycle.queued, .yielding, .parked] ∧
        self.Becomes pid { actor with lifecycle := .queued } after := by
  unfold markQueued
  rw [call_get_bind, call_check_bind]
  cases found : self.view pid with
  | none =>
    refine .inl ⟨missingActor pid, ?_⟩
    unfold VmActorDirectory.lifecycle
    rw [view_eq_none_iff.mp found]
    rfl
  | some actor =>
    obtain ⟨cell, resolved, rfl⟩ := view_eq_some_iff.mp found
    have sound := h.cells pid cell resolved
    have read : self.lifecycle pid = .ok cell.view.lifecycle := by
      unfold VmActorDirectory.lifecycle
      rw [resolved]
      simp only [bind, Except.bind, sound.readable]
      rfl
    rw [read]
    dsimp only
    rw [call_ite]
    by_cases queued : cell.view.lifecycle = .queued
    · rw [if_pos queued]
      refine .inr ⟨self, cell.view, rfl, rfl, by simp [queued], h, ?_⟩
      rw [← queued, ← found, update_eq_self]
    rw [if_neg queued, call_ofCall]
    rcases h.transition_cases found [.yielding, .parked]
        (show VmActorLifecycle.queued ∉ _ by decide) with
      ⟨e, run, _⟩ | ⟨after, run, _, legal, becomes⟩
    · exact .inl ⟨e, run⟩
    · exact .inr ⟨after, cell.view, run, rfl, mem_cons_of_mem _ legal, becomes⟩

theorem Sound.acquireMutator_cases (h : self.Sound) (pid : VmProcessId) (owner : UInt64) :
    (∃ e, Method.call (acquireMutator pid owner) self = (self, .error e)) ∨
      ∃ after token actor, Method.call (acquireMutator pid owner) self = (after, .ok token) ∧
        token.handle.pid = pid ∧ token.owner ≠ 0 ∧ self.view pid = some actor ∧
        actor.lifecycle = .queued ∧
        self.Becomes pid { actor with lifecycle := .executing } after := by
  unfold acquireMutator acquire
  rw [call_check_bind]
  by_cases bad : owner = 0 ∨ generationMask < owner
  · rw [failIf, if_pos bad]
    exact .inl ⟨_, rfl⟩
  rw [failIf, if_neg bad]
  obtain ⟨positive, small⟩ := not_or.mp bad
  have fits : owner.toNat < 2 ^ 20 := by
    have mask : generationMask.toNat = 2 ^ 20 - 1 := by decide
    have bound := UInt64.not_lt.mp small
    rw [UInt64.le_iff_toNat_le, mask] at bound
    omega
  dsimp only
  cases found : self.view pid with
  | none => exact .inl ⟨_, call_onCell_error (view_eq_none_iff.mp found) _⟩
  | some actor =>
    obtain ⟨cell, resolved, rfl⟩ := view_eq_some_iff.mp found
    have sound := h.cells pid cell resolved
    rw [call_onCell_ok resolved]
    rcases sound.call_acquire_execution owner with ⟨e, run⟩ | ⟨queued, run⟩
    · rw [run, setCell_self h.wellFormed resolved]
      exact .inl ⟨e, rfl⟩
    rw [run]
    refine .inr ⟨_, _, cell.view, rfl, ?_, positive, rfl, queued, ?_⟩
    · exact (h.wellFormed.cell_ok_iff.mp resolved).2
    · have moved := h.becomes resolved (sound.dispatched positive fits) rfl
      rw [VmActorCell.view, sound.current_dispatched fits] at moved
      exact moved

/-- What a method with the token of an executing actor does. -/
theorem Sound.token_cases (h : self.Sound) (handle : VmActorHandle)
    (m : Method VmActorDirectoryError (VmActorCell τ π) α)
    (P : VmActorCell τ π → VmActorCell τ π → α → Prop)
    (run : ∀ cell : VmActorCell τ π, cell.Sound → (∃ e, m.call cell = (cell, .error e)) ∨
      ∃ now a, m.call cell = (now, .ok a) ∧ cell.current.lifecycle = .executing ∧ P cell now a) :
    (∃ e, Method.call (onCell (·.cellForHandle handle) m) self = (self, .error e)) ∨
      ∃ cell now a, self.cell handle.pid = .ok cell ∧ cell.current.lifecycle = .executing ∧
        Method.call (onCell (·.cellForHandle handle) m) self = (self.setCell now, .ok a) ∧
        P cell now a := by
  cases resolved : self.cellForHandle handle with
  | error e => exact .inl ⟨e, call_onCell_error resolved m⟩
  | ok cell =>
    rw [call_onCell_ok resolved]
    have located := (h.resolves resolved).1
    rcases run cell (h.cells _ cell located) with ⟨e, same⟩ | ⟨now, a, same, executing, rest⟩
    · rw [same, setCell_self h.wellFormed located]
      exact .inl ⟨e, rfl⟩
    · rw [same]
      exact .inr ⟨cell, now, a, located, executing, rfl, rest⟩

variable {token : VmActorMutatorToken}

theorem Sound.drainPublications_cases (h : self.Sound) (positive : token.owner ≠ 0)
    (integrate : τ → VmActorPublication → π → τ) :
    (∃ e, Method.call (drainPublications token integrate) self = (self, .error e)) ∨
      ∃ after actor, self.view token.handle.pid = some actor ∧ actor.lifecycle = .executing ∧
        Method.call (drainPublications token integrate) self = (after, .ok actor.pending.length) ∧
        self.Becomes token.handle.pid ⟨actor.integrated integrate, [], actor.lifecycle⟩ after := by
  rcases h.token_cases token.handle (VmActorCell.drainPublications token integrate)
      (fun cell now a => now = { cell with
          mailbox := cell.mailbox.drain
          value := cell.integrated integrate } ∧
        a = cell.mailbox.queue.length) fun cell sound => by
        rcases VmActorCell.call_drainPublications_cases cell token integrate with
          refused | ⟨valid, run⟩
        · exact .inl refused
        · exact .inr ⟨_, _, run, sound.executing_of_valid valid positive, rfl, rfl⟩ with
    refused | ⟨cell, _, _, resolved, executing, run, rfl, rfl⟩
  · exact .inl refused
  · have after := (h.cells _ cell resolved).drained (cell.integrated integrate)
    exact .inr ⟨_, cell.view, view_eq_some_iff.mpr ⟨cell, resolved, rfl⟩, executing, run,
      h.becomes resolved after rfl⟩

theorem Sound.releaseMutator_cases (h : self.Sound) (positive : token.owner ≠ 0)
    (next : VmActorLifecycle) :
    (∃ e, Method.call (releaseMutator token next) self = (self, .error e)) ∨
      ∃ after actor lifecycle reported, self.view token.handle.pid = some actor ∧
        actor.lifecycle = .executing ∧
        Method.call (releaseMutator token next) self = (after, .ok reported) ∧
        lifecycle ∈ [VmActorLifecycle.queued, .yielding, .parked, .exiting] ∧
        self.Becomes token.handle.pid { actor with lifecycle } after := by
  unfold releaseMutator
  rw [call_check_bind]
  by_cases allowed : next ∈ [VmActorLifecycle.yielding, .parked, .exiting]
  · rw [failIf, if_neg (not_not.mpr allowed)]
    dsimp only
    rcases h.token_cases token.handle (VmActorCell.releaseMutator token next)
        (fun cell now _ => cell.Released now) fun cell sound => by
          rcases sound.call_releaseMutator_cases token allowed with
            refused | ⟨valid, now, lifecycle, released, run⟩
          · exact .inl refused
          · exact .inr ⟨now, lifecycle, run, sound.executing_of_valid valid positive, released⟩ with
      refused | ⟨cell, now, reported, resolved, executing, run, released⟩
    · exact .inl refused
    have sound := h.cells _ cell resolved
    obtain ⟨after, settled⟩ := sound.released released
    obtain ⟨lifecycle, wakeState, _, rfl⟩ := released
    refine .inr ⟨_, cell.view, _, reported, view_eq_some_iff.mpr ⟨cell, resolved, rfl⟩,
      executing, run, settled, ?_⟩
    exact h.becomes resolved after rfl
  · rw [failIf, if_pos allowed]
    exact .inl ⟨_, rfl⟩

/-- A reclaimed actor was retired, and it is gone. -/
theorem Sound.reclaim_cases (h : self.Sound) (pid : VmProcessId) :
    (∃ e, self.reclaim pid = (self, .error e)) ∨
      ∃ after actor, self.reclaim pid = (after, .ok actor.value) ∧ self.view pid = some actor ∧
        actor.lifecycle = .retired ∧ after.Sound ∧
        after.view = Function.update self.view pid none := by
  unfold VmActorDirectory.reclaim
  dsimp only
  split
  next e _ => exact .inl ⟨e, rfl⟩
  next cell admitted =>
    right
    obtain ⟨cell', resolved, rest⟩ := except_bind_ok_iff.mp admitted
    obtain ⟨state, read, checks⟩ := except_bind_ok_iff.mp rest
    obtain ⟨retired, checks⟩ := check_bind_ok_iff.mp checks
    obtain ⟨_, same⟩ := check_bind_ok_iff.mp checks
    cases same
    obtain ⟨located, named⟩ := h.wellFormed.cell_ok_iff.mp resolved
    have wellFormed := h.wellFormed.vacate located
    rw [named] at wellFormed
    have found : ∀ other found, (self.vacate pid cell.handle.slot).cell other = .ok found ↔
        other ≠ pid ∧ self.cell other = .ok found := by
      intro other found
      rw [wellFormed.cell_ok_iff, h.wellFormed.cell_ok_iff, cellAt_vacate]
      by_cases own : found.handle.slot = cell.handle.slot
      · rw [if_pos own, own, located]
        refine iff_of_false (by simp) ?_
        rintro ⟨differs, same, belongs⟩
        cases same
        exact differs (belongs.symm.trans named)
      · rw [if_neg own]
        refine ⟨fun inside => ⟨?_, inside⟩, fun inside => inside.2⟩
        rintro rfl
        have here := h.wellFormed.cell_ok_iff.mpr inside
        rw [resolved] at here
        cases here
        exact own rfl
    refine ⟨_, cell.view, rfl, view_eq_some_iff.mpr ⟨cell, resolved, rfl⟩, ?_,
      ⟨wellFormed, fun other cell' inside => h.cells other cell' ((found other cell').mp inside).2⟩,
      ?_⟩
    · rw [VmActorCell.view, VmActorCell.current_eq read]
      exact not_not.mp (failIf_ok_iff.mp retired)
    · funext other
      rw [update_apply]
      apply Option.ext
      intro actor
      rw [view_eq_some_iff]
      simp only [found]
      split
      next own => simp [own]
      next own =>
        rw [view_eq_some_iff]
        simp [own]

end VmActorDirectory

end Terlan.ActorDirectory
