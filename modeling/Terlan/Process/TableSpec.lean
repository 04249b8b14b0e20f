/-
  What the operations of the process table do to a sound table, told in the view of its
  directory: a control operation is refused while its process executes, an exit retires the
  process, a message reaches one receiver. An operation that failed has changed nothing.
-/
import Terlan.ActorDirectory.View
import Terlan.Process.Table

namespace Terlan.Process

open Terlan.Lib Terlan.ActorDirectory Terlan.TermFormat List Function
open VmActorDirectory (acquireMutator acquireControlMutator withMutator drainPublications
  releaseMutator releaseControlMutator publishFragment markQueued)

/-- A process with its pending messages and its lifecycle. -/
abbrev VmActor := VmActorView VmProcess VmMessage

namespace VmProcessTable

variable {table : VmProcessTable} {pid : VmProcessId} {actor : VmActor} {α : Type}

def view (table : VmProcessTable) : VmProcessId → Option VmActor := table.processes.view

/-- Processes end when their actors retire. -/
structure Sound (table : VmProcessTable) : Prop where
  directory : table.processes.Sound
  exited : ∀ pid (actor : VmActor), table.view pid = some actor →
    (actor.lifecycle = .retired ↔ actor.value.state.isExited = true)

theorem view_new (pid : VmProcessId) : VmProcessTable.new.view pid = none :=
  VmActorDirectory.view_new pid

theorem sound_new : VmProcessTable.new.Sound where
  directory := VmActorDirectory.sound_new
  exited pid actor found := by
    rw [view_new] at found
    cases found

/-- One process changes, and the table stays sound. -/
structure Becomes (before : VmProcessTable) (pid : VmProcessId) (actor : VmActor)
    (after : VmProcessTable) : Prop where
  sound : after.Sound
  view : after.view = Function.update before.view pid (some actor)

/-- The same process changes again. -/
theorem Becomes.again {actor' : VmActor} {between after : VmProcessTable}
    (first : table.Becomes pid actor between) (second : between.Becomes pid actor' after) :
    table.Becomes pid actor' after where
  sound := second.sound
  view := by rw [second.view, first.view, update_idem]

variable {after : VmProcessTable}

theorem Sound.becomes (h : table.Sound) (moved : table.processes.Becomes pid actor after.processes)
    (exited : actor.lifecycle = .retired ↔ actor.value.state.isExited = true) :
    table.Becomes pid actor after where
  sound :=
    { directory := moved.sound
      exited := fun other actor' found => by
        rw [VmProcessTable.view, moved.view, update_apply] at found
        split at found
        next =>
          cases found
          exact exited
        next => exact h.exited other actor' found }
  view := moved.view

/-- A move between lifecycles of a process that has not ended. -/
theorem Sound.becomes_moved (h : table.Sound)
    (found : table.view pid = some actor) {lifecycle : VmActorLifecycle}
    (moved : table.processes.Becomes pid { actor with lifecycle } after.processes)
    (live : actor.lifecycle ≠ .retired) (still : lifecycle ≠ .retired) :
    table.Becomes pid { actor with lifecycle } after :=
  h.becomes moved (iff_of_false still fun ended => live ((h.exited pid actor found).mpr ended))

@[simp] theorem get_eq_view (table : VmProcessTable) (pid : VmProcessId) :
    table.get pid = (table.view pid).map (·.value) := VmActorDirectory.get_eq_view _ pid

theorem Becomes.get (h : table.Becomes pid actor after) (other : VmProcessId) :
    after.get other = if other = pid then some actor.value else table.get other := by
  rw [get_eq_view, h.view, update_apply]
  split
  next => rfl
  next => rw [get_eq_view]

@[simp] theorem call_owned
    (m : Method VmActorDirectoryError (VmActorDirectory VmProcess VmMessage) α)
    (table : VmProcessTable) :
    Method.call (owned m) table = ({ table with processes := (m.call table.processes).1 },
      (m.call table.processes).2.mapError actorDirectoryError) := rfl

/-! ## Control operations -/

theorem control_owner_ne_zero : vmControlPlaneOwner ≠ 0 := by decide

theorem control_owner_small : ¬ generationMask < vmControlPlaneOwner := by decide

theorem control_owner_fits : vmControlPlaneOwner.toNat < 2 ^ 20 := by decide

/-- A control operation is refused when the process is missing or executes. -/
def Busy (table : VmProcessTable) (pid : VmProcessId) : Prop :=
  ∀ actor, table.view pid = some actor → actor.lifecycle = .executing

/-- A worker executes the process. -/
def Executes (table : VmProcessTable) (pid : VmProcessId) : Prop :=
  ∃ actor, table.view pid = some actor ∧ actor.lifecycle = .executing

theorem executes_iff :
    table.Executes pid ↔ (table.view pid).any (·.lifecycle = .executing) = true := by
  unfold Executes
  cases table.view pid with
  | none | some => simp

instance : Decidable (table.Executes pid) := decidable_of_iff _ executes_iff.symm

theorem Busy.executes (busy : table.Busy pid) (found : table.view pid = some actor) :
    table.Executes pid := ⟨actor, found, busy actor found⟩

theorem Sound.call_withProcessControlMutator (h : table.Sound) (pid : VmProcessId)
    (mutate : VmProcess → VmProcess × α) :
    (∃ e, Method.call (withProcessControlMutator pid mutate) table = (table, .error e) ∧
      table.Busy pid) ∨ ∃ after actor, Method.call (withProcessControlMutator pid mutate) table =
          ({ table with processes := after }, .ok (mutate actor.value).2) ∧
        table.view pid = some actor ∧ actor.lifecycle ≠ .executing ∧
        table.processes.Becomes pid { actor with value := (mutate actor.value).1 } after := by
  unfold withProcessControlMutator
  rw [call_bind, call_owned]
  cases found : table.view pid with
  | none =>
    rw [VmActorDirectory.call_acquireControlMutator_missing
      (VmActorDirectory.view_eq_none_iff.mp found) control_owner_ne_zero control_owner_small]
    refine .inl ⟨_, rfl, fun actor other => ?_⟩
    rw [found] at other
    cases other
  | some actor =>
    obtain ⟨cell, resolved, rfl⟩ := VmActorDirectory.view_eq_some_iff.mp found
    have sound := h.directory.cells pid cell resolved
    rw [h.directory.call_acquireControlMutator resolved control_owner_ne_zero
      control_owner_small]
    by_cases busy : cell.current.lifecycle = .executing
    · rw [if_pos busy]
      refine .inl ⟨_, rfl, fun actor other => ?_⟩
      rw [found] at other
      cases other
      exact busy
    · rw [if_neg busy]
      right
      dsimp only [Except.mapError]
      rw [call_bind, call_owned, h.directory.call_withMutator resolved control_owner_fits]
      dsimp only [Except.mapError]
      rw [call_bind, call_owned,
        h.directory.call_releaseControlMutator resolved control_owner_fits]
      exact ⟨_, cell.view, rfl, rfl, busy, h.directory.becomes_settled resolved busy
        sound.counted sound.bounded (mutate cell.value).1⟩

/-- The same on a sound table, for a mutation that ends no process. -/
theorem Sound.withProcessControlMutator_cases (h : table.Sound) (pid : VmProcessId)
    {mutate : VmProcess → VmProcess × α}
    (keeps : ∀ process, (mutate process).1.state.isExited = process.state.isExited) :
    (∃ e, Method.call (withProcessControlMutator pid mutate) table = (table, .error e) ∧
      table.Busy pid) ∨ ∃ after actor, Method.call (withProcessControlMutator pid mutate) table =
          ({ table with processes := after }, .ok (mutate actor.value).2) ∧
        table.view pid = some actor ∧ actor.lifecycle ≠ .executing ∧
        table.Becomes pid { actor with value := (mutate actor.value).1 }
          { table with processes := after } := by
  rcases h.call_withProcessControlMutator pid mutate with
    refused | ⟨after, actor, run, found, idle, moved⟩
  · exact .inl refused
  · refine .inr ⟨after, actor, run, found, idle, h.becomes moved ?_⟩
    rw [keeps]
    exact h.exited pid actor found

theorem Sound.updateProcess_cases (h : table.Sound) (pid : VmProcessId)
    (mutate : VmProcess → VmProcess)
    (keeps : ∀ process, (mutate process).state.isExited = process.state.isExited) :
    (∃ e, Method.call (updateProcess pid mutate) table = (table, .error e) ∧ table.Busy pid) ∨
      ∃ after actor, Method.call (updateProcess pid mutate) table =
          ({ table with processes := after }, .ok ()) ∧
        table.view pid = some actor ∧ actor.lifecycle ≠ .executing ∧
        table.Becomes pid { actor with value := mutate actor.value }
          { table with processes := after } :=
  h.withProcessControlMutator_cases pid keeps

/-! ## Scheduling -/

theorem Sound.markActorQueued_cases (h : table.Sound) (pid : VmProcessId) :
    (∃ e, Method.call (markActorQueued pid) table = (table, .error e)) ∨
      ∃ after actor, Method.call (markActorQueued pid) table =
          ({ table with processes := after }, .ok ()) ∧
        table.view pid = some actor ∧
        actor.lifecycle ∈ [VmActorLifecycle.queued, .yielding, .parked] ∧
        table.Becomes pid { actor with lifecycle := .queued }
          { table with processes := after } := by
  unfold markActorQueued
  rw [call_owned]
  rcases h.directory.markQueued_cases pid with ⟨e, run⟩ | ⟨after, actor, run, found, free, moved⟩
  · rw [run]
    exact .inl ⟨_, rfl⟩
  rw [run]
  refine .inr ⟨after, actor, rfl, found, free, h.becomes_moved found moved ?_ (by decide)⟩
  intro retired
  rw [retired] at free
  exact absurd free (by decide)

theorem Sound.acquireActorMutator_cases (h : table.Sound) (pid : VmProcessId) (owner : UInt64) :
    (∃ e, Method.call (acquireActorMutator pid owner) table = (table, .error e)) ∨
      ∃ after token actor, Method.call (acquireActorMutator pid owner) table =
          ({ table with processes := after }, .ok token) ∧
        token.handle.pid = pid ∧ token.owner ≠ 0 ∧ table.view pid = some actor ∧
        actor.lifecycle = .queued ∧
        table.Becomes pid { actor with lifecycle := .executing }
          { table with processes := after } := by
  unfold acquireActorMutator
  rw [call_owned]
  rcases h.directory.acquireMutator_cases pid owner with
    ⟨e, run⟩ | ⟨after, token, actor, run, named, positive, found, queued, moved⟩
  · rw [run]
    exact .inl ⟨_, rfl⟩
  · rw [run]
    exact .inr ⟨after, token, actor, rfl, named, positive, found, queued,
      h.becomes_moved found moved (by rw [queued]; decide) (by decide)⟩

section Token

variable {token : VmActorMutatorToken}

theorem Sound.releaseActorMutator_cases (h : table.Sound) (positive : token.owner ≠ 0)
    (next : VmActorLifecycle) :
    (∃ e, Method.call (releaseActorMutator token next) table = (table, .error e)) ∨
      ∃ after actor lifecycle reported, Method.call (releaseActorMutator token next) table =
          ({ table with processes := after }, .ok reported) ∧
        table.view token.handle.pid = some actor ∧ actor.lifecycle = .executing ∧
        lifecycle ∈ [VmActorLifecycle.queued, .yielding, .parked, .exiting] ∧
        table.Becomes token.handle.pid { actor with lifecycle }
          { table with processes := after } := by
  unfold releaseActorMutator
  rw [call_owned]
  rcases h.directory.releaseMutator_cases positive next with
    ⟨e, run⟩ | ⟨after, actor, lifecycle, reported, found, executing, run, settled, moved⟩
  · rw [run]
    exact .inl ⟨_, rfl⟩
  rw [run]
  refine .inr ⟨after, actor, lifecycle, reported, rfl, found, executing, settled,
    h.becomes_moved found moved (by rw [executing]; decide) ?_⟩
  rintro rfl
  exact absurd settled (by decide)

end Token

/-- Refused, or one process moves between lifecycles. -/
def Schedules (table : VmProcessTable) (m : Method String VmProcessTable α) : Prop :=
  (∃ e, m.call table = (table, .error e)) ∨
    ∃ after a pid actor lifecycle, m.call table = (after, .ok a) ∧ table.view pid = some actor ∧
      table.Becomes pid { actor with lifecycle } after

theorem Sound.schedules_markActorQueued (h : table.Sound) (pid : VmProcessId) :
    Schedules table (markActorQueued pid) :=
  (h.markActorQueued_cases pid).imp_right fun ⟨_, actor, run, found, _, becomes⟩ =>
    ⟨_, _, pid, actor, _, run, found, becomes⟩

theorem Sound.schedules_acquireActorMutator (h : table.Sound) (pid : VmProcessId)
    (owner : UInt64) : Schedules table (acquireActorMutator pid owner) :=
  (h.acquireActorMutator_cases pid owner).imp_right
    fun ⟨_, _, actor, run, _, _, found, _, becomes⟩ => ⟨_, _, pid, actor, _, run, found, becomes⟩

theorem Sound.schedules_releaseActorMutator (h : table.Sound) {token : VmActorMutatorToken}
    (positive : token.owner ≠ 0) (next : VmActorLifecycle) :
    Schedules table (releaseActorMutator token next) :=
  (h.releaseActorMutator_cases positive next).imp_right
    fun ⟨_, actor, _, _, run, found, _, _, becomes⟩ => ⟨_, _, _, actor, _, run, found, becomes⟩

/-! ## Lifecycle -/

/-- An exit is refused while the process executes, and when it has ended. -/
theorem Sound.exitProcess_cases (h : table.Sound) (pid : VmProcessId) (reason : VmExitReason) :
    (∃ e, Method.call (exitProcess pid reason) table = (table, .error e) ∧
      ∀ actor, table.view pid = some actor →
        actor.lifecycle ∈ [VmActorLifecycle.executing, .retired]) ∨
      ∃ after actor, Method.call (exitProcess pid reason) table =
          (after, .ok actor.value.resourceHandles) ∧ table.view pid = some actor ∧
        actor.lifecycle ∉ [VmActorLifecycle.executing, .retired] ∧
        table.Becomes pid ⟨(actor.value.exit reason).1, actor.pending, .retired⟩ after := by
  unfold exitProcess
  rw [call_get_bind, call_check_bind, VmActorDirectory.contains_eq_view h.directory.wellFormed]
  cases found : table.view pid with
  | none =>
    have missing : table.processes.view pid = none := found
    rw [failIf, if_pos (by rw [missing]; decide)]
    exact .inl ⟨_, rfl, fun actor other => by cases other⟩
  | some actor =>
    have present : table.processes.view pid = some actor := found
    rw [failIf, if_neg (by rw [present]; simp)]
    dsimp only
    rw [call_bind, call_owned, call_ofCall]
    rcases h.directory.markExiting_cases present with
      ⟨e, run, ended⟩ | ⟨exiting, run, live, moved⟩
    · rw [run]
      refine .inl ⟨_, rfl, fun actor' other => ?_⟩
      cases other
      exact ended
    · rw [run]
      right
      have table' : VmProcessTable.Sound { table with processes := exiting } :=
        (h.becomes_moved found moved (fun retired => live (by simp [retired])) (by decide)).sound
      dsimp only [Except.mapError]
      rw [call_bind]
      rcases table'.call_withProcessControlMutator pid (·.exit reason) with
        ⟨e, _, busy⟩ | ⟨ended, actor', run', found', idle, moved'⟩
      · exact absurd (busy _ moved.found) (by simp)
      cases found'.symm.trans moved.found
      rw [run']
      dsimp only
      rw [call_bind, call_owned, call_ofCall]
      rcases moved'.sound.markRetired_cases moved'.found with
        ⟨e, _, other⟩ | ⟨retired, run'', _, moved''⟩
      · exact absurd rfl other
      · rw [run'']
        refine ⟨_, actor, rfl, rfl, live, h.becomes ((moved.again moved').again moved'') ?_⟩
        exact iff_of_true rfl rfl

/-- A spawn panics without a new process, or adds one. -/
theorem Sound.spawn_cases (h : table.Sound) (parent : Option VmProcessId)
    (source : VmProcessSource) :
    (∃ text after, Method.call (spawn parent source) table = (after, .error (.panicked text)) ∧
      after.Sound ∧ after.view = table.view) ∨
      ∃ after pid, Method.call (spawn parent source) table = (after, .ok pid) ∧
        table.view pid = none ∧
        table.Becomes pid ⟨.new pid parent source, [], .yielding⟩ after := by
  unfold spawn
  rw [call_modify_bind, call_get_bind, call_bind, call_expect, call_owned, call_ofCall]
  dsimp only
  rcases h.directory.insert_cases ⟨saturatingAdd table.nextPid 1⟩
      (.new ⟨saturatingAdd table.nextPid 1⟩ parent source) with
    ⟨e, run⟩ | ⟨after, handle, run, fresh, moved⟩
  · rw [run]
    exact .inl ⟨_, _, rfl, ⟨h.directory, h.exited⟩, rfl⟩
  · rw [run]
    exact .inr ⟨_, _, rfl, fresh, h.becomes moved (iff_of_false (by simp) (by simp [VmProcess.new,
      VmProcessState.isExited]))⟩

theorem Sound.spawnChild_cases (h : table.Sound) (parent : VmProcessId) (source : VmProcessSource) :
    (∃ fault after, Method.call (spawnChild parent source) table = (after, .error fault) ∧
      after.Sound ∧ after.view = table.view) ∨
      ∃ after pid, Method.call (spawnChild parent source) table = (after, .ok pid) ∧
        table.view pid = none ∧
        table.Becomes pid ⟨.new pid (some parent) source, [], .yielding⟩ after := by
  unfold spawnChild
  rw [call_get_bind]
  split
  next => exact .inl ⟨_, table, rfl, h, rfl⟩
  next process _ =>
    rw [call_ite]
    split
    · exact .inl ⟨_, table, rfl, h, rfl⟩
    rcases h.spawn_cases (some parent) source with
      ⟨text, after, run, same⟩ | ⟨after, pid, run, fresh, becomes⟩
    · exact .inl ⟨_, after, run, same⟩
    · exact .inr ⟨after, pid, run, fresh, becomes⟩

/-- A panic without a new process, or a new process. -/
def Spawns (table : VmProcessTable) (m : Method (Fault String) VmProcessTable VmProcessId) :
    Prop :=
  (∃ fault after, m.call table = (after, .error fault) ∧ after.Sound ∧ after.view = table.view) ∨
    ∃ after pid parent source, m.call table = (after, .ok pid) ∧ table.view pid = none ∧
      table.Becomes pid ⟨.new pid parent source, [], .yielding⟩ after

theorem Sound.spawns_spawnRoot (h : table.Sound) (source : VmProcessSource) :
    Spawns table (spawnRoot source) :=
  (h.spawn_cases none source).imp (fun ⟨_, after, run, same⟩ => ⟨_, after, run, same⟩)
    fun ⟨after, pid, run, unknown, becomes⟩ => ⟨after, pid, none, source, run, unknown, becomes⟩

theorem Sound.spawns_spawnChild (h : table.Sound) (parent : VmProcessId)
    (source : VmProcessSource) : Spawns table (spawnChild parent source) :=
  (h.spawnChild_cases parent source).imp_right fun ⟨after, pid, run, unknown, becomes⟩ =>
    ⟨after, pid, some parent, source, run, unknown, becomes⟩

theorem Sound.reapExited_cases (h : table.Sound) (pid : VmProcessId) :
    (∃ e, Method.call (reapExited pid) table = (table, .error e)) ∨
      ∃ after actor, Method.call (reapExited pid) table = (after, .ok ()) ∧
        table.view pid = some actor ∧ actor.value.state.isExited = true ∧ after.Sound ∧
        after.view = Function.update table.view pid none := by
  unfold reapExited
  rw [call_get_bind]
  split
  next => exact .inl ⟨_, rfl⟩
  next process found =>
    rw [call_check_bind]
    by_cases exited : process.state.isExited = true
    · rw [failIf, if_neg (not_not.mpr exited)]
      dsimp only
      rw [call_bind, call_owned, call_ofCall]
      rcases h.directory.reclaim_cases pid with
        ⟨e, run⟩ | ⟨after, actor, run, seen, retired, sound, gone⟩
      · rw [run]
        exact .inl ⟨_, rfl⟩
      rw [run]
      refine .inr ⟨_, actor, rfl, seen, (h.exited pid actor seen).mp retired, ⟨sound, ?_⟩, gone⟩
      intro other actor' found'
      have found' : after.view other = some actor' := found'
      rw [gone, update_apply] at found'
      split at found'
      next => cases found'
      next => exact h.exited other actor' found'
    · rw [failIf, if_pos exited]
      exact .inl ⟨_, rfl⟩

/-! ## Messages -/

/-- What waits for a process, in its mailbox. -/
def integrated (actor : VmActor) : VmProcess :=
  VmActorView.integrated actor fun process publication message =>
    process.integrateMessage { message with publicationSequence := publication.sequence }

/-- A fragment as the mailbox holds it. -/
def arrived (fragment : VmPublishedFragment VmMessage) : VmMessage :=
  { fragment.payload with publicationSequence := fragment.publication.sequence }

theorem integrated_cons (value : VmProcess) (fragment : VmPublishedFragment VmMessage)
    (pending : List (VmPublishedFragment VmMessage)) (lifecycle : VmActorLifecycle) :
    integrated ⟨value, fragment :: pending, lifecycle⟩ =
      integrated ⟨value.integrateMessage (arrived fragment), pending, lifecycle⟩ := rfl

variable (process : VmProcess)

theorem wake_isExited : process.wake.state.isExited = process.state.isExited := by
  unfold VmProcess.wake
  split <;> simp_all [VmProcessState.isExited]

variable (message : VmMessage)

theorem integrateMessage_isExited :
    (process.integrateMessage message).state.isExited = process.state.isExited := by
  unfold VmProcess.integrateMessage
  split
  next => rw [wake_isExited]
  next => rw [wake_isExited]

theorem integrated_isExited (actor : VmActor) :
    (integrated actor).state.isExited = actor.value.state.isExited := by
  obtain ⟨value, pending, lifecycle⟩ := actor
  induction pending generalizing value with
  | nil => rfl
  | cons fragment pending ih =>
    rw [integrated_cons]
    exact (ih _).trans (integrateMessage_isExited value _)

theorem wake_mailbox : process.wake.mailbox = process.mailbox := by
  unfold VmProcess.wake
  split <;> rfl

theorem wake_heapBytes : process.wake.heapBytes = process.heapBytes := by
  unfold VmProcess.wake
  split <;> rfl

theorem insertPriority_perm (mailbox : List VmMessage) (message : VmMessage) :
    (VmProcess.insertPriority mailbox message).Perm (mailbox ++ [message]) := by
  unfold VmProcess.insertPriority
  dsimp only
  generalize (mailbox.findIdx? (·.priority = .ordinary)).getD mailbox.length = insertion
  calc mailbox.take insertion ++ message :: mailbox.drop insertion
      |>.Perm (message :: (mailbox.take insertion ++ mailbox.drop insertion)) :=
        perm_middle
    _ = message :: mailbox := by rw [take_append_drop]
    _ |>.Perm (mailbox ++ [message]) := (perm_append_singleton message mailbox).symm

theorem integrateMessage_mailbox :
    (process.integrateMessage message).mailbox.Perm (process.mailbox ++ [message]) := by
  unfold VmProcess.integrateMessage
  split
  · rw [wake_mailbox]
  rw [wake_mailbox]
  exact insertPriority_perm process.mailbox message

theorem integrateMessage_heapBytes :
    (process.integrateMessage message).heapBytes = process.heapBytes := by
  unfold VmProcess.integrateMessage
  split
  next => rw [wake_heapBytes]
  next => rw [wake_heapBytes]

/-- Every waiting message arrives, and nothing else. -/
theorem integrated_mailbox (actor : VmActor) :
    (integrated actor).mailbox.Perm (actor.value.mailbox ++ actor.pending.map arrived) := by
  obtain ⟨value, pending, lifecycle⟩ := actor
  induction pending generalizing value with
  | nil => simp [integrated, VmActorView.integrated]
  | cons fragment pending ih =>
    rw [integrated_cons]
    refine (ih _).trans ?_
    dsimp only
    rw [map_cons, append_cons value.mailbox]
    exact (integrateMessage_mailbox value (arrived fragment)).append_right _

theorem integrated_heapBytes (actor : VmActor) :
    (integrated actor).heapBytes = actor.value.heapBytes := by
  obtain ⟨value, pending, lifecycle⟩ := actor
  induction pending generalizing value with
  | nil => rfl
  | cons fragment pending ih =>
    rw [integrated_cons]
    exact (ih _).trans (integrateMessage_heapBytes value _)

/-- A selective receive takes the first message that fits, and leaves the others in order. -/
theorem selectiveReceive_cases (predicate : VmMessage → Bool) :
    (process.selectiveReceive predicate = (process, none) ∧
      ∀ message ∈ process.mailbox, predicate message = false) ∨
      ∃ front message back, process.mailbox = front ++ message :: back ∧
        (∀ other ∈ front, predicate other = false) ∧ predicate message = true ∧
        process.selectiveReceive predicate =
          ({ process with mailbox := front ++ back }, some message) := by
  unfold VmProcess.selectiveReceive
  cases taken : process.mailbox.find? predicate with
  | none =>
    have others := find?_eq_none.mp taken
    rw [eraseP_of_forall_not others]
    exact .inl ⟨rfl, fun message mem => Bool.eq_false_iff.mpr (others message mem)⟩
  | some message =>
    obtain ⟨fits, front, back, parts, others⟩ := find?_eq_some_iff_append.mp taken
    have others (other : VmMessage) (mem : other ∈ front) : predicate other = false := by
      simpa using others other mem
    refine .inr ⟨front, message, back, parts, others, fits, ?_⟩
    rw [parts, eraseP_append_right _ fun other mem => Bool.eq_false_iff.mp (others other mem),
      eraseP_cons_of_pos fits]

/-- Whoever executes the process integrates what waits for it. -/
theorem Sound.integrateActorMailbox_cases (h : table.Sound) {token : VmActorMutatorToken}
    (positive : token.owner ≠ 0) :
    (∃ e, Method.call (integrateActorMailbox token) table = (table, .error e)) ∨
      ∃ after actor, Method.call (integrateActorMailbox token) table =
          ({ table with processes := after }, .ok actor.pending.length) ∧
        table.view token.handle.pid = some actor ∧ actor.lifecycle = .executing ∧
        table.Becomes token.handle.pid ⟨integrated actor, [], actor.lifecycle⟩
          { table with processes := after } := by
  unfold integrateActorMailbox
  rw [call_owned]
  rcases h.directory.drainPublications_cases positive (fun process publication message =>
      process.integrateMessage { message with publicationSequence := publication.sequence }) with
    ⟨e, run⟩ | ⟨after, actor, found, executing, run, moved⟩
  · rw [run]
    exact .inl ⟨_, rfl⟩
  rw [run]
  refine .inr ⟨after, actor, rfl, found, executing, h.becomes moved ?_⟩
  change _ ↔ (integrated actor).state.isExited = true
  rw [integrated_isExited]
  exact h.exited _ actor found

/-- The receiver integrates what waits for it, unless somebody executes it. -/
theorem Sound.integrateProcessMailboxIfUnowned_cases (h : table.Sound)
    (found : table.view pid = some actor) : actor.lifecycle = .executing ∧
        Method.call (integrateProcessMailboxIfUnowned pid) table = (table, .ok false) ∨
      actor.lifecycle ≠ .executing ∧ ∃ after,
        Method.call (integrateProcessMailboxIfUnowned pid) table =
          ({ table with processes := after }, .ok true) ∧
        table.Becomes pid ⟨integrated actor, [], actor.lifecycle⟩
          { table with processes := after } := by
  obtain ⟨cell, resolved, rfl⟩ := VmActorDirectory.view_eq_some_iff.mp found
  have sound := h.directory.cells pid cell resolved
  unfold integrateProcessMailboxIfUnowned VmProcessTable.directory
  rw [call_bind, call_attempt, call_within,
    h.directory.call_acquireControlMutator resolved control_owner_ne_zero control_owner_small]
  by_cases busy : cell.current.lifecycle = .executing
  · rw [if_pos busy]
    exact .inl ⟨busy, rfl⟩
  rw [if_neg busy]
  right
  refine ⟨busy, ?_⟩
  dsimp only
  unfold integrateActorMailbox
  rw [call_bind, call_attempt, call_owned,
    h.directory.call_drainPublications resolved control_owner_fits]
  dsimp only [Except.mapError]
  rw [call_bind, call_owned, h.directory.call_releaseControlMutator resolved control_owner_fits]
  have counted : cell.mailbox.drain.admitted = cell.mailbox.drain.queue.length := by
    simp [VmActorMailbox.drain, sound.counted]
  refine ⟨_, rfl, h.becomes (h.directory.becomes_settled resolved busy counted (Nat.zero_le _)
    (integrated cell.view)) ?_⟩
  rw [integrated_isExited]
  exact h.exited pid cell.view found

/-- The message that a delivery publishes. -/
def publishedMessage (id : UInt64) (sender : VmProcessId) (delivery : VmMessageDelivery) :
    VmMessage :=
  { id
    publicationSequence := 0
    sender
    payload := delivery.payload
    boundaryType := delivery.boundaryType
    managedFragment := delivery.managedFragment
    accountedBytes := delivery.accountedBytes
    priority := delivery.priority }

/-- An actor takes publications: it is not ending, and its queue has room. -/
def Accepts (actor : VmActor) : Prop :=
  actor.lifecycle ∉ [VmActorLifecycle.exiting, .retired] ∧
    actor.pending.length < actorMailboxCapacity

/-- What a publication makes of its receiver: it waits when somebody executes the receiver,
and is in the mailbox otherwise. -/
inductive Receives (actor : VmActor) (fragment : VmPublishedFragment VmMessage) :
    VmActor → Prop where
  | waits (executing : actor.lifecycle = .executing) :
      Receives actor fragment { actor with pending := actor.pending ++ [fragment] }
  | arrives {lifecycle : VmActorLifecycle} (idle : actor.lifecycle ≠ .executing)
      (moved : lifecycle = actor.lifecycle ∨ actor.lifecycle = .parked ∧ lifecycle = .queued) :
      Receives actor fragment
        ⟨integrated { actor with pending := actor.pending ++ [fragment] }, [], lifecycle⟩

theorem Sound.enqueueMessage_cases (h : table.Sound) (sender : VmProcessId)
    {recipient : VmProcessId} (found : table.view recipient = some actor)
    (delivery : VmMessageDelivery) :
    (∃ e, Method.call (enqueueMessage sender recipient delivery) table = (table, .error e) ∧
      ¬ Accepts actor) ∨ ∃ after publication received,
        Method.call (enqueueMessage sender recipient delivery) table =
          ({ table with nextMessageId := saturatingAdd table.nextMessageId 1, processes := after },
            .ok (saturatingAdd table.nextMessageId 1)) ∧
        Accepts actor ∧
        Receives actor
          ⟨publication,
            publishedMessage (saturatingAdd table.nextMessageId 1) sender delivery⟩ received ∧
        table.Becomes recipient received
          { table with nextMessageId := saturatingAdd table.nextMessageId 1, processes := after } := by
  unfold enqueueMessage
  rw [call_get_bind]
  dsimp only
  rw [call_bind, call_mapError, VmProcessTable.directory, call_within]
  rcases h.directory.publishFragment_cases found
      (publishedMessage (saturatingAdd table.nextMessageId 1) sender delivery) with
    ⟨e, run, refused⟩ | ⟨after, publication, wake, lifecycle, run, opened, room, moved, becomes⟩
  · unfold publishedMessage at run
    rw [run]
    refine .inl ⟨_, rfl, fun accepts => ?_⟩
    rcases refused with ended | full
    · exact accepts.1 ended
    · exact absurd accepts.2 (Nat.not_lt.mpr full)
  · unfold publishedMessage at run
    rw [run]
    right
    dsimp only [Except.mapError]
    rw [call_modify_bind, call_bind]
    have live : actor.lifecycle ≠ .retired := fun retired => opened (by simp [retired])
    have still : lifecycle ≠ .retired := by
      rcases moved with same | ⟨_, queued⟩
      · rw [same]
        exact live
      · rw [queued]
        decide
    have published : table.Becomes recipient _
        { table with nextMessageId := saturatingAdd table.nextMessageId 1, processes := after } :=
      h.becomes becomes
        (iff_of_false still fun ended => live ((h.exited recipient actor found).mpr ended))
    rcases published.sound.integrateProcessMailboxIfUnowned_cases becomes.found with
      ⟨executing, run'⟩ | ⟨idle, after', run', integrates⟩
    · rw [run']
      rcases moved with rfl | ⟨_, rfl⟩
      · exact ⟨after, publication, _, rfl, ⟨opened, room⟩, .waits executing, published⟩
      · cases executing
    · rw [run']
      refine ⟨after', publication, _, rfl, ⟨opened, room⟩, .arrives ?_ moved,
        published.again integrates⟩
      rcases moved with rfl | ⟨parked, _⟩
      · exact idle
      · rw [parked]
        decide

theorem validateRole_ok_iff {role : String} :
    table.validateRole role pid = .ok () ↔ table.isAlive pid = true := by
  unfold validateRole isAlive
  cases table.get pid with
  | none => simp
  | some process => simp [failIf_ok_iff]

theorem isAlive_iff : table.isAlive pid = true ↔
    ∃ actor, table.view pid = some actor ∧ actor.value.state.isExited = false := by
  unfold isAlive
  rw [get_eq_view]
  cases table.view pid with
  | none | some => simp

/-- A process that stays live, or ended, keeps everybody so. -/
theorem Becomes.isAlive {actor' : VmActor}
    (h : table.Becomes pid actor' after) (found : table.view pid = some actor)
    (same : actor'.value.state.isExited = actor.value.state.isExited) (other : VmProcessId) :
    after.isAlive other = table.isAlive other := by
  unfold VmProcessTable.isAlive
  rw [h.get]
  split
  next own => rw [own, get_eq_view, found, Option.map_some, Option.any_some, Option.any_some, same]
  next => rfl

theorem call_sendDelivery {sender recipient : VmProcessId}
    (valid : table.validateSend sender recipient = .ok ()) (delivery : VmMessageDelivery) :
    Method.call (sendDelivery sender recipient delivery) table =
      Method.call (enqueueMessage sender recipient delivery) table := by
  unfold sendDelivery
  rw [call_get_bind, call_check_bind, valid]

/-- The outcomes of a send: an error and nothing else, or one publication. -/
def Sends (table : VmProcessTable) (sender recipient : VmProcessId)
    (delivery : VmMessageDelivery) (result : VmProcessTable × Except String UInt64) : Prop :=
  (∃ e, result = (table, .error e)) ∨
    ∃ after actor publication received,
      result =
        ({ table with nextMessageId := saturatingAdd table.nextMessageId 1, processes := after },
          .ok (saturatingAdd table.nextMessageId 1)) ∧
      table.view recipient = some actor ∧ actor.value.state.isExited = false ∧
      Accepts actor ∧
      Receives actor
        ⟨publication,
          publishedMessage (saturatingAdd table.nextMessageId 1) sender delivery⟩ received ∧
      table.Becomes recipient received
        { table with nextMessageId := saturatingAdd table.nextMessageId 1, processes := after }

theorem Sound.sends_enqueueMessage (h : table.Sound) (sender : VmProcessId)
    {recipient : VmProcessId} (alive : table.isAlive recipient = true)
    (delivery : VmMessageDelivery) : table.Sends sender recipient delivery
      (Method.call (enqueueMessage sender recipient delivery) table) := by
  obtain ⟨actor, found, live⟩ := isAlive_iff.mp alive
  rcases h.enqueueMessage_cases sender found delivery with
    ⟨e, run, _⟩ | ⟨after, publication, received, run, rest⟩
  · exact .inl ⟨e, run⟩
  · exact .inr ⟨after, actor, publication, received, run, found, live, rest⟩

theorem Sound.sends_sendDelivery (h : table.Sound) (sender recipient : VmProcessId)
    (delivery : VmMessageDelivery) : table.Sends sender recipient delivery
      (Method.call (sendDelivery sender recipient delivery) table) := by
  unfold sendDelivery
  rw [call_get_bind, call_check_bind]
  cases valid : table.validateSend sender recipient with
  | error e => exact .inl ⟨e, rfl⟩
  | ok _ =>
    obtain ⟨_, alive⟩ := check_bind_ok_iff.mp valid
    exact h.sends_enqueueMessage sender (validateRole_ok_iff.mp alive) delivery

theorem Sound.sends_sendSystem (h : table.Sound) (origin recipient : VmProcessId)
    (payload : ReplValue) (lane : VmMessagePriority) :
    table.Sends origin recipient ⟨payload, none, none, 0, lane⟩
      (Method.call (sendSystem origin recipient payload lane) table) := by
  unfold sendSystem
  rw [call_get_bind, call_check_bind]
  by_cases present : table.processes.contains origin = true
  · rw [failIf, if_neg (not_not.mpr present)]
    dsimp only
    rw [call_check_bind]
    cases valid : table.validateRecipient recipient with
    | error e => exact .inl ⟨e, rfl⟩
    | ok _ => exact h.sends_enqueueMessage origin (validateRole_ok_iff.mp valid) _
  · rw [failIf, if_pos present]
    exact .inl ⟨_, rfl⟩

end VmProcessTable

end Terlan.Process
