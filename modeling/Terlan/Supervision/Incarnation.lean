/-
  Which incarnation of a child a pending shutdown acts on.

  * `shutdown_acts_on_own`: in every run whose completions find a shutdown that is pending for
    the process that the child still has, and no other process in the way of its restart, a
    completion that returns an error has changed nothing, and any other completion ends the
    process that the shutdown was requested for.
-/
import Terlan.Supervision.Shutdown
import Terlan.Supervision.Tree
import Terlan.Timer.Interval

namespace Terlan.Supervision

open Terlan.Lib Terlan.ActorDirectory Terlan.Process VmSupervisionRuntime SupervisorCell
open Terlan.Timer (VmTimerId VmTimerTable VmTimerEvent VmTimer Timing startOneShot)
open VmSupervisionRuntime (onSupervised onProcesses onTiming cancelTimer modifyShutdown)
open VmSupervisionShutdownQueue (liveTimerOwner scheduleShutdown removePending expireShutdown
  handleTimerEvent handleTimerEvents)
open Std (ExtTreeMap)

/-! ## The queue in order -/

/-- The index of the pending shutdowns, and no timer that has not been started. -/
structure Indexed (queue : VmSupervisionShutdownQueue) (nextTimerId : UInt64) : Prop where
  child : ∀ (key : VmSupervisorId × String) (timerId : VmTimerId),
    queue.pendingChildren[key]? = some timerId →
      ∃ pending, queue.pending[timerId]? = some pending ∧
        (pending.supervisorId, pending.childId) = key
  counted : ∀ (timerId : VmTimerId) (pending : VmPendingSupervisionShutdown),
    queue.pending[timerId]? = some pending → timerId.value ≤ nextTimerId

structure Steady (s : VmSupervisionRuntime) : Prop where
  processes : s.processes.Sound
  timers : s.timing.timers.Sound
  indexed : Indexed s.shutdown s.timing.timers.nextTimerId

section Steady

variable {α : Type} {s : VmSupervisionRuntime}

theorem Indexed.removePending {queue : VmSupervisionShutdownQueue} {next : UInt64}
    (h : Indexed queue next) {timerId : VmTimerId} {pending : VmPendingSupervisionShutdown}
    (found : queue.pending[timerId]? = some pending) :
    Indexed (queue.removePending timerId pending) next := by
  refine ⟨fun key other there => ?_, fun other pending' there => ?_⟩
  · unfold VmSupervisionShutdownQueue.removePending at there ⊢
    dsimp only at there ⊢
    rw [getElem?_erase_eq] at there
    split at there
    next => cases there
    next ne =>
      obtain ⟨pending', found', eq⟩ := h.child key other there
      refine ⟨pending', ?_, eq⟩
      rw [getElem?_erase_eq, if_neg]
      · exact found'
      · rintro rfl
        cases found.symm.trans found'
        exact ne eq
  · unfold VmSupervisionShutdownQueue.removePending at there
    dsimp only at there
    rw [getElem?_erase_eq] at there
    split at there
    next => cases there
    next => exact h.counted other pending' there

theorem Indexed.insert {queue : VmSupervisionShutdownQueue} {next : UInt64}
    (h : Indexed queue next) {timerId : VmTimerId} (fresh : queue.pending[timerId]? = none)
    (counted : timerId.value ≤ next) (pending : VmPendingSupervisionShutdown) :
    Indexed
      { queue with
        pending := queue.pending.insert timerId pending
        pendingChildren := queue.pendingChildren.insert (pending.supervisorId, pending.childId)
          timerId } next := by
  refine ⟨fun key other there => ?_, fun other pending' there => ?_⟩
  · dsimp only at there ⊢
    rw [getElem?_insert_eq] at there
    split at there
    next eq =>
      cases there
      exact ⟨pending, getElem?_insert_self_eq _ _ _, eq⟩
    next =>
      obtain ⟨pending', found', eq⟩ := h.child key other there
      refine ⟨pending', (getElem?_insert_of_ne _ _ fun same => ?_).trans found', eq⟩
      rw [← same, fresh] at found'
      cases found'
  · dsimp only at there
    rw [getElem?_insert_eq] at there
    split at there
    next eq => exact eq ▸ counted
    next => exact h.counted other pending' there

theorem keeps_onProcesses {m : Method (Fault String) VmProcessTable α}
    (h : Keeps VmProcessTable.Sound m) : Keeps Steady (onProcesses m) :=
  leads_within fun s steady => ⟨h s.processes steady.processes, steady.timers, steady.indexed⟩

theorem keeps_onSupervised {m : SupervisedM α} (h : Keeps (fun s => s.processes.Sound) m) :
    Keeps Steady (onSupervised m) :=
  leads_within fun s steady => ⟨h s.supervised steady.processes, steady.timers, steady.indexed⟩

variable (supervisorId : VmSupervisorId)

theorem keeps_restartChild (childId : String) (reason : VmExitReason) :
    Keeps (fun s => s.processes.Sound) (Supervised.restartChild supervisorId childId reason) :=
  fun s sound => @call_sound s (.restartChild supervisorId childId reason) sound trivial

theorem cancel_nextTimerId (timers : VmTimerTable) (timerId : VmTimerId) :
    (timers.cancel timerId).1.nextTimerId = timers.nextTimerId := by
  unfold VmTimerTable.cancel
  cases timers.timers[timerId]? with
  | none | some => rfl

variable (timerId : VmTimerId)

theorem keeps_cancelTimer : Keeps Steady (cancelTimer timerId) := by
  intro s steady
  refine ⟨steady.processes, ?_, ?_⟩
  · exact (Timer.cancel_effect steady.timers timerId).keeps_sound steady.timers
  · show Indexed s.shutdown (s.timing.timers.cancel timerId).1.nextTimerId
    rw [cancel_nextTimerId]
    exact steady.indexed

theorem keeps_sendSystemMessage (origin recipient : VmProcessId) (payload : TermFormat.ReplValue) :
    Keeps VmProcessTable.Sound
      (VmProcessTable.sendSystemMessage origin recipient payload).orReturn := by
  intro table sound
  rw [call_orReturn]
  unfold VmProcessTable.sendSystemMessage
  rcases sound.sends_sendSystem origin recipient payload .ordinary with
    ⟨e, run⟩ | ⟨after, actor, publication, received, run, _, _, _, _, becomes⟩
  · rw [run]
    exact sound
  · rw [run]
    exact becomes.sound

/-- A timer that has just been started has no pending shutdown. -/
structure Fresher (timerId : VmTimerId) (s : VmSupervisionRuntime) : Prop extends Steady s where
  fresh : s.shutdown.pending[timerId]? = none
  started : timerId.value ≤ s.timing.timers.nextTimerId

theorem liveTimerOwner_keeps (s : VmSupervisionRuntime) (steady : Steady s) :
    let after := (liveTimerOwner.call s).1
    Steady after ∧ after.timing.timers = s.timing.timers ∧
      after.shutdown.pending = s.shutdown.pending := by
  unfold liveTimerOwner
  rw [call_get_bind]
  split
  · exact ⟨steady, rfl, rfl⟩
  have kept := keeps_onProcesses
    (keeps_spawnRoot ⟨"runtime.SupervisionShutdown", "wait", 0, none⟩) s steady
  rw [call_bind]
  revert kept
  unfold onProcesses
  rw [call_within]
  rcases (VmProcessTable.spawnRoot ⟨"runtime.SupervisionShutdown", "wait", 0, none⟩).call
    s.processes with ⟨table, e | pid⟩
  · exact fun kept => ⟨kept, rfl, rfl⟩
  · exact fun kept => ⟨⟨kept.processes, kept.timers, kept.indexed.child, kept.indexed.counted⟩,
      rfl, rfl⟩

theorem call_startOneShot (s : Timing) (owner : VmProcessId) (deadlineTick : UInt64) :
    (∃ e, (startOneShot owner deadlineTick).call s = (s, .error e)) ∨
      (startOneShot owner deadlineTick).call s =
        ({ s with timers := (s.timers.insertTimer owner deadlineTick .oneShot none).1 },
          .ok ⟨saturatingAdd s.timers.nextTimerId 1⟩) := by
  unfold startOneShot Timer.requireLive
  rw [call_bind, call_get_bind]
  cases Timer.requireLiveProcess s.scheduling.processes owner with
  | error e => exact .inl ⟨_, rfl⟩
  | ok _ => exact .inr rfl

/-- A new timer has an identity of its own while the identities last. -/
theorem fresher_startOneShot {owner : VmProcessId} {deadlineTick : UInt64} (steady : Steady s)
    (free : s.timing.timers.nextTimerId.toNat < u64Max) :
    (∃ e, (onTiming (startOneShot owner deadlineTick)).call s = (s, .error e)) ∨
      ∃ s' timerId, (onTiming (startOneShot owner deadlineTick)).call s = (s', .ok timerId) ∧
        Fresher timerId s' := by
  unfold onTiming
  rw [call_within]
  rcases call_startOneShot s.timing owner deadlineTick with ⟨e, run⟩ | run
  · rw [run]
    exact .inl ⟨e, rfl⟩
  rw [run]
  have later : s.timing.timers.nextTimerId < saturatingAdd s.timing.timers.nextTimerId 1 := by
    rw [UInt64.lt_iff_toNat_lt, saturatingAdd_toNat]
    change _ < min (_ + 1) _
    omega
  have sound := (Timer.startOneShot_effect steady.timers owner deadlineTick).keeps_sound
    steady.timers
  rw [show Timer.call s.timing (.startOneShot owner deadlineTick) =
    Timer.startReply (startOneShot owner deadlineTick) s.timing from rfl, Timer.startReply, run]
    at sound
  refine .inr ⟨_, _, rfl, ⟨steady.processes, sound, steady.indexed.child, ?_⟩, ?_, ?_⟩
  · intro timerId pending there
    exact UInt64.le_trans (steady.indexed.counted timerId pending there) (UInt64.le_of_lt later)
  · cases there : s.shutdown.pending[
      (⟨saturatingAdd s.timing.timers.nextTimerId 1⟩ : VmTimerId)]? with
    | none => rfl
    | some pending =>
      exact absurd (steady.indexed.counted _ pending there) (UInt64.not_le.mpr later)
  · exact UInt64.le_refl _

theorem steady_scheduleShutdown {supervisorId : VmSupervisorId} {childId : String}
    {pid : VmProcessId} {timeoutMs deadlineTick : UInt64} (steady : Steady s)
    (free : s.timing.timers.nextTimerId.toNat < u64Max) :
    Steady ((scheduleShutdown supervisorId childId pid timeoutMs deadlineTick).call s).1 := by
  unfold scheduleShutdown
  rw [call_bind]
  obtain ⟨steady', timers, _⟩ := liveTimerOwner_keeps s steady
  revert steady' timers
  rcases liveTimerOwner.call s with ⟨s', e | owner⟩
  · exact fun steady' _ => steady'
  intro steady' timers
  dsimp only at steady' timers ⊢
  rw [call_bind]
  rcases @fresher_startOneShot s' owner deadlineTick steady' (timers ▸ free) with
    ⟨e, run⟩ | ⟨s'', timerId, run, fresher⟩
  · rw [run]
    exact steady'
  rw [run]
  dsimp only
  rw [call_bind, call_attempt]
  have sent : Fresher timerId ((onProcesses (VmProcessTable.sendSystemMessage owner pid
      (shutdownMessage timeoutMs)).orReturn).call s'').1 :=
    ⟨keeps_onProcesses (keeps_sendSystemMessage owner pid (shutdownMessage timeoutMs)) s''
      fresher.toSteady, fresher.fresh, fresher.started⟩
  revert sent
  rcases (onProcesses (VmProcessTable.sendSystemMessage owner pid
    (shutdownMessage timeoutMs)).orReturn).call s'' with ⟨last, e | _⟩
  · intro sent
    exact keeps_bind (leads_attempt (keeps_cancelTimer timerId)) (fun _ => keeps_throw e) last
      sent.toSteady
  · intro sent
    exact ⟨sent.processes, sent.timers, sent.indexed.insert sent.fresh sent.started
      ⟨supervisorId, childId, pid, timeoutMs⟩⟩

variable {nowTick : UInt64}

theorem steady_beginShutdown {supervisorId : VmSupervisorId} {childId : String}
    {reason : VmExitReason} (steady : Steady s)
    (free : s.timing.timers.nextTimerId.toNat < u64Max) :
    Steady ((VmSupervisionShutdownQueue.beginShutdown supervisorId childId reason
      nowTick).call s).1 := by
  have restarts (reason : VmExitReason) : Keeps Steady (do
      let restart ← onSupervised (Supervised.restartChild supervisorId childId reason)
      return VmInternalSupervisionShutdownStart.immediate restart) :=
    keeps_bind (keeps_onSupervised (keeps_restartChild supervisorId childId reason))
      fun _ => keeps_pure _
  unfold VmSupervisionShutdownQueue.beginShutdown
  rw [call_get_bind, call_check_bind]
  rcases childShutdownConfig s.system supervisorId childId with e | ⟨pid, timeoutMs⟩
  · exact steady
  dsimp only
  rw [call_check_bind]
  rcases processState s.processes pid with e | state
  · exact steady
  dsimp only
  split
  next exited => exact restarts exited s steady
  next =>
    split
    · exact restarts reason s steady
    split
    · exact steady
    split
    next => exact steady
    next => exact steady_scheduleShutdown steady free

/-- The pending shutdown of a timer, in a steady state. -/
structure Awaits (timerId : VmTimerId) (pending : VmPendingSupervisionShutdown)
    (s : VmSupervisionRuntime) : Prop extends Steady s where
  found : s.shutdown.pending[timerId]? = some pending

theorem leads_removePending (pending : VmPendingSupervisionShutdown) :
    Leads (Awaits timerId pending) Steady
      (modifyShutdown fun queue => queue.removePending timerId pending) :=
  leads_modify fun _ awaits =>
    ⟨awaits.processes, awaits.timers, awaits.indexed.removePending awaits.found⟩

theorem keeps_restart (childId : String) (reason : VmExitReason)
    (f : VmSupervisionRestart → VmSupervisionShutdownCompletion) : Keeps Steady (do
      let restart ← onSupervised (Supervised.restartChild supervisorId childId reason)
      return f restart) :=
  keeps_bind (keeps_onSupervised (keeps_restartChild supervisorId childId reason))
    fun _ => keeps_pure _

theorem keeps_completeShutdown (childId : String) :
    Keeps Steady (VmSupervisionShutdownQueue.completeShutdown supervisorId childId) := by
  refine leads_get_bind fun s steady => ?_
  split
  next => exact steady
  next timerId _ =>
    split
    next => exact steady
    next pending found =>
      rw [call_check_bind]
      split
      next reason _ =>
        have cancelled : Leads (Awaits timerId pending) (Awaits timerId pending)
            (cancelTimer timerId) := fun s awaits =>
          ⟨keeps_cancelTimer timerId s awaits.toSteady, awaits.found⟩
        refine leads_bind cancelled (fun _ awaits => awaits.toSteady) (fun _ => ?_) s
          ⟨steady, found⟩
        exact leads_bind (leads_removePending timerId pending) (fun _ steady => steady)
          fun _ => keeps_restart _ _ _ _
      next => exact steady

theorem keeps_exitProcess (pid : VmProcessId) (reason : VmExitReason) :
    Keeps VmProcessTable.Sound (VmProcessTable.exitProcess pid reason).orReturn := by
  intro table sound
  rw [call_orReturn]
  rcases sound.exitProcess_cases pid reason with ⟨e, run, _⟩ | ⟨after, actor, run, _, _, becomes⟩
  · rw [run]
    exact sound
  · rw [run]
    exact becomes.sound

theorem keeps_expireShutdown (pending : VmPendingSupervisionShutdown) :
    Keeps Steady (expireShutdown timerId pending) := by
  refine keeps_get_bind fun s => keeps_bind (keeps_lift _) fun currentPid => ?_
  refine leads_ite (fun _ => keeps_pure _) fun _ => ?_
  split
  next => exact keeps_restart _ _ _ _
  next =>
    exact keeps_bind (keeps_onProcesses (keeps_exitProcess _ _)) fun _ => keeps_restart _ _ _ _

theorem keeps_handleTimerEvent (event : VmTimerEvent) : Keeps Steady (handleTimerEvent event) := by
  refine leads_get_bind fun s steady => ?_
  dsimp only
  split
  next => exact steady
  next pending found =>
    refine leads_bind (leads_removePending event.timerId pending) (fun _ steady => steady)
      (fun _ => ?_) s ⟨steady, found⟩
    split
    next => exact keeps_pure _
    next => exact keeps_pure _
    next => exact leads_map (keeps_expireShutdown _ _)
    next => exact leads_map (keeps_expireShutdown _ _)
    next => exact keeps_throw _

theorem keeps_handleTimerEvents (events : List VmTimerEvent) :
    Keeps Steady (handleTimerEvents events) := by
  induction events with
  | nil => exact keeps_pure _
  | cons event events ih =>
    refine keeps_bind (keeps_handleTimerEvent event) fun completion => ?_
    refine keeps_bind ih fun rest => ?_
    cases completion with
    | none | some => exact keeps_pure _

/-- The clock leaves a sound process table. -/
theorem fireTimer_sound (timer : VmTimer) (s : Timing) (sound : s.scheduling.processes.Sound) :
    (Timer.fireTimer nowTick s timer).1.scheduling.processes.Sound := by
  by_cases ended : Timer.timerOwnerExited s.scheduling.processes timer.owner = true
  · unfold Timer.fireTimer
    dsimp only
    rw [if_pos ended]
    exact sound
  · exact (Timer.alive_fireTimer ⟨sound, Bool.eq_false_of_not_eq_true ended⟩ timer).1

theorem fireTimers_sound (due : List VmTimer) (s : Timing) (sound : s.scheduling.processes.Sound) :
    (Timer.fireTimers nowTick s due).1.scheduling.processes.Sound := by
  induction due generalizing s with
  | nil => exact sound
  | cons timer due ih =>
    exact ih _ (fireTimer_sound timer s sound)

theorem advanceClock_sound {s : Timing} (sound : s.scheduling.processes.Sound) :
    (Timer.advanceClock s nowTick).1.scheduling.processes.Sound := by
  unfold Timer.advanceClock
  split
  next => exact sound
  next => exact fireTimers_sound _ _ sound

theorem advanceClock_next {s : Timing} (sound : s.timers.Sound) :
    (Timer.advanceClock s nowTick).1.timers.nextTimerId = s.timers.nextTimerId := by
  by_cases backwards : Timer.Backwards s.timers nowTick
  · obtain ⟨drift, run⟩ := Timer.advanceClock_backwards backwards
    rw [run]
  · exact (Timer.advanceClock_spec sound backwards).2.2.2

theorem keeps_advanceClock (nowTick : UInt64) :
    Keeps Steady (VmSupervisionShutdownQueue.advanceClock nowTick) := by
  refine keeps_bind (fun s steady => ⟨?_, ?_, ?_⟩) fun events =>
    keeps_bind (keeps_handleTimerEvents events) fun _ => keeps_pure _
  · exact advanceClock_sound steady.processes
  · exact (Timer.advanceClock_effect steady.timers nowTick).keeps_sound steady.timers
  · show Indexed s.shutdown (Timer.advanceClock s.timing nowTick).1.timers.nextTimerId
    rw [advanceClock_next steady.timers]
    exact steady.indexed

end Steady

/-! ## A restart that nothing is in the way of -/

/-- A call that does not return an error. -/
def ReturnsNoError {ρ α : Type} (result : ρ × Except (Fault String) α) : Prop :=
  ∀ text, result.2 ≠ .error (.returned text)

theorem returnsNoError_ok {ρ α : Type} (s : ρ) (a : α) :
    ReturnsNoError ((s, .ok a) : ρ × Except (Fault String) α) := fun _ failed => by cases failed

theorem returnsNoError_bind {σ α β : Type} {a : Method (Fault String) σ α}
    {b : α → Method (Fault String) σ β} {s : σ} (first : ReturnsNoError (a.call s))
    (rest : ∀ x s', ReturnsNoError ((b x).call s')) : ReturnsNoError ((a >>= b).call s) := by
  rw [call_bind]
  revert first
  rcases a.call s with ⟨s', e | x⟩
  · exact fun first text failed => first text (by cases failed; rfl)
  · exact fun _ => rest x s'

section Clear

variable {reason : VmExitReason} {childId : String}

theorem not_held_of_ended {table : VmProcessTable} {pid : VmProcessId} (ended : Ended table pid) :
    ¬ Held table pid := by
  obtain ⟨actor, found, retired⟩ := ended
  rintro (absent | ⟨actor', found', executing⟩)
  · rw [found] at absent
    cases absent
  · cases found.symm.trans found'
    rw [retired] at executing
    cases executing

variable {cell : ChildCell}

/-- A new process in the place of the old one, or a panic. -/
theorem respawn_clear (sound : cell.processes.Sound) :
    (∃ inner, ChildCell.respawn.call cell = (inner, .error outOfProcesses)) ∨
      ∃ inner pid, ChildCell.respawn.call cell = (inner, .ok pid) ∧
        Evolves (fun _ => False) cell.processes inner.processes ∧
        ¬ Held inner.processes inner.child.pid := by
  unfold ChildCell.respawn
  rw [call_get_bind, call_bind, call_onProcesses]
  rcases @spawnRoot_cases (fun _ => False) cell.processes sound cell.child.spec.source with
    ⟨table, run, _⟩ | ⟨table, pid, run, evolves, _, started⟩
  · rw [run]
    exact .inl ⟨_, rfl⟩
  rw [run]
  refine .inr ⟨_, pid, rfl, evolves, ?_⟩
  rintro (absent | ⟨actor, found, executing⟩)
  · exact absurd (started.symm.trans absent) (Option.some_ne_none _)
  · cases started.symm.trans found
    cases executing

theorem restartMember_clear (sound : cell.processes.Sound)
    (clear : ¬ Held cell.processes cell.child.pid) :
    (∃ inner, (ChildCell.restartMember reason childId).call cell = (inner, .error outOfProcesses)) ∨
      ∃ inner event, (ChildCell.restartMember reason childId).call cell = (inner, .ok event) ∧
        Evolves (· = cell.child.pid) cell.processes inner.processes ∧
        ¬ Held inner.processes inner.child.pid := by
  unfold ChildCell.restartMember
  rw [call_get_bind, call_bind, call_onProcesses]
  rcases @exitUnlessExited_cases _ cell.child.pid reason sound with
    ⟨_, _, held⟩ | ⟨table, run, evolves, ended⟩
  · exact absurd held clear
  rw [run]
  dsimp only
  rw [call_bind, call_modifyChild]
  dsimp only
  rw [call_ite]
  split
  · exact .inr ⟨_, none, rfl, evolves, not_held_of_ended ended⟩
  rw [call_bind, call_modifyChild]
  dsimp only
  rw [call_bind]
  rcases @respawn_clear ⟨ChildCell.countRestart
    { cell.child with lastShutdownTimeoutMs := cell.child.spec.shutdownTimeout }, table⟩
    evolves.sound with ⟨inner, run⟩ | ⟨inner, pid, run, evolves', free⟩
  · rw [run]
    exact .inl ⟨inner, rfl⟩
  · rw [run]
    exact .inr ⟨inner, _, rfl, evolves.trans (evolves'.weaken fun _ => False.elim), free⟩

/-- A group in which no process is in the way. -/
theorem eachChild_clear {childIds : List String} {cell : SupervisorCell}
    (sound : cell.processes.Sound)
    (clear : ∀ other ∈ childIds, ∀ pid, cell.supervisor.pidOf other = some pid →
      ¬ Held cell.processes pid) : ReturnsNoError
      ((eachChild (ChildCell.restartMember reason) childIds).call cell) := by
  induction childIds generalizing cell with
  | nil => exact fun text failed => by cases failed
  | cons childId rest ih =>
    unfold eachChild
    rw [call_bind]
    cases found : cell.supervisor.children[childId]? with
    | none =>
      rw [call_atChild_missing found]
      exact fun text failed => by cases failed
    | some child =>
      have named : cell.supervisor.pidOf childId = some child.pid := by
        rw [VmSupervisor.pidOf, found]
        rfl
      rw [call_atChild found]
      rcases @restartMember_clear reason childId ⟨child, cell.processes⟩ sound
        (clear childId List.mem_cons_self child.pid named) with
        ⟨inner, run⟩ | ⟨inner, event, run, evolves, free⟩
      · rw [run]
        exact fun text failed => by cases failed
      rw [run]
      dsimp only
      have later := @ih ⟨{ cell.supervisor with
        children := cell.supervisor.children.insert childId inner.child },
        inner.processes⟩ evolves.sound fun other member pid running => by
          by_cases same : other = childId
          · cases same
            cases pidOf_insert.symm.trans running
            exact free
          · refine fun held => clear other (List.mem_cons_of_mem _ member) pid ?_
              (evolves.held held)
            rw [← running, VmSupervisor.pidOf, VmSupervisor.pidOf]
            exact congrArg _ (getElem?_insert_of_ne _ _ (Ne.symm same)).symm
      exact returnsNoError_bind later fun _ _ => returnsNoError_ok _ _

theorem restartOneForOneChild_clear (sound : cell.processes.Sound)
    (clear : ¬ Held cell.processes cell.child.pid) :
    ReturnsNoError ((ChildCell.restartOneForOneChild reason).call cell) := by
  unfold ChildCell.restartOneForOneChild
  rw [call_get_bind, call_bind, call_onProcesses]
  rcases @exitUnlessExited_cases _ cell.child.pid reason sound with
    ⟨_, _, held⟩ | ⟨table, run, evolves, ended⟩
  · exact absurd held clear
  rw [run]
  dsimp only
  rw [call_bind, call_modifyChild]
  dsimp only
  rw [call_ite]
  split
  · exact fun text failed => by cases failed
  rw [call_ite]
  split
  · exact fun text failed => by cases failed
  rw [call_bind, call_modifyChild]
  dsimp only
  rw [call_bind]
  rcases @respawn_clear ⟨ChildCell.countRestart
    { cell.child with lastShutdownTimeoutMs := cell.child.spec.shutdownTimeout }, table⟩
    evolves.sound with ⟨inner, run⟩ | ⟨inner, pid, run, _⟩
  · rw [run]
    exact fun text failed => by cases failed
  · rw [run]
    exact fun text failed => by cases failed

theorem limitedChild_cases (supervisor : VmSupervisor) (childIds : List String) :
    (∃ text, limitedChild supervisor reason childIds = .error (.panicked text)) ∨
      (∃ child, limitedChild supervisor reason childIds = .ok (some child)) ∨
      limitedChild supervisor reason childIds = .ok none ∧
        childIds.find? (exhausted supervisor reason) = none := by
  induction childIds with
  | nil => exact .inr (.inr ⟨rfl, rfl⟩)
  | cons childId rest ih =>
    unfold limitedChild
    cases found : supervisor.children[childId]? with
    | none => exact .inl ⟨_, rfl⟩
    | some child =>
      by_cases limited : child.spec.restartClass.shouldRestart reason = true ∧
          child.restartCount ≥ child.spec.restartLimit
      · dsimp only
        rw [if_pos limited]
        exact .inr (.inl ⟨child, rfl⟩)
      · dsimp only
        rw [if_neg limited, List.find?_cons_of_neg]
        · exact ih
        · simp only [exhausted, found, Option.any_some, Bool.and_eq_true, decide_eq_true_eq]
          exact limited

theorem restartChildGroup_clear {childIds : List String} {cell : SupervisorCell}
    (sound : cell.processes.Sound)
    (clear : (∃ first, childIds.find? (exhausted cell.supervisor reason) = some first) ∨
      ∀ other ∈ childIds, ∀ pid, cell.supervisor.pidOf other = some pid →
        ¬ Held cell.processes pid) :
    ReturnsNoError ((restartChildGroup childIds reason).call cell) := by
  unfold restartChildGroup
  rw [call_get_bind, call_check_bind]
  rcases @limitedChild_cases reason cell.supervisor childIds with
    ⟨text, run⟩ | ⟨child, run⟩ | ⟨run, none⟩
  · rw [run]
    exact fun text failed => by cases failed
  · rw [run]
    exact fun text failed => by cases failed
  rw [run]
  have group := @eachChild_clear reason childIds cell sound (clear.resolve_left fun limited => by
    rw [none] at limited
    obtain ⟨_, impossible⟩ := limited
    cases impossible)
  exact returnsNoError_bind group fun _ _ => returnsNoError_ok _ _

theorem applyPolicy_clear {cell : SupervisorCell} (sound : cell.processes.Sound)
    {child : VmSupervisorChild} (found : cell.supervisor.children[childId]? = some child)
    (own : ¬ Held cell.processes child.pid) (clear : cell.supervisor.policy = .oneForOne ∨
      (∃ first, (selectedChildren cell.supervisor childId).find?
        (exhausted cell.supervisor reason) = some first) ∨
      ∀ other ∈ selectedChildren cell.supervisor childId, ∀ pid,
        cell.supervisor.pidOf other = some pid → ¬ Held cell.processes pid) :
    ReturnsNoError ((applyPolicy childId reason).call cell) := by
  have there (missing : Fault String) :
      failIf (cell.supervisor.children[childId]?.isNone = true) missing = .ok () :=
    failIf_ok_iff.mpr (by rw [found]; exact Bool.false_ne_true)
  unfold selectedChildren at clear
  unfold applyPolicy
  rw [call_get_bind]
  cases policy : cell.supervisor.policy with
  | oneForOne =>
    dsimp only
    rw [call_atChild found]
    exact @restartOneForOneChild_clear reason ⟨child, cell.processes⟩ sound own
  | oneForAll =>
    rw [policy] at clear
    dsimp only
    rw [call_check_bind, there]
    exact restartChildGroup_clear sound (clear.resolve_left VmRestartPolicy.noConfusion)
  | restForOne =>
    rw [policy] at clear
    dsimp only
    rw [call_check_bind, there]
    dsimp only
    rw [call_check_bind]
    unfold laterChildren
    by_cases listed : childId ∈ cell.supervisor.childOrder
    · rw [if_pos listed]
      exact restartChildGroup_clear sound (clear.resolve_left VmRestartPolicy.noConfusion)
    · rw [if_neg listed]
      exact fun text failed => by cases failed

/-- The restart of a child that has ended, when nothing is in the way of its group. -/
theorem restartChild_clear {s : Supervised} (sound : s.processes.Sound)
    {supervisorId : VmSupervisorId} {supervisor : VmSupervisor} {child : VmSupervisorChild}
    (foundSupervisor : s.system.supervisors[supervisorId]? = some supervisor)
    (found : supervisor.children[childId]? = some child) (own : ¬ Held s.processes child.pid)
    (clear : supervisor.policy = .oneForOne ∨
      (∃ first, (selectedChildren supervisor childId).find? (exhausted supervisor reason) =
        some first) ∨ ∀ other ∈ selectedChildren supervisor childId, ∀ pid,
        supervisor.pidOf other = some pid → ¬ Held s.processes pid) :
    ReturnsNoError ((Supervised.restartChild supervisorId childId reason).call s) := by
  have policy := @applyPolicy_clear reason childId ⟨supervisor, s.processes⟩ sound child found own
    clear
  have restarted : ReturnsNoError ((Supervised.atSupervisor supervisorId
      (restartChild childId reason)).call s) := by
    rw [call_atSupervisor foundSupervisor]
    refine returnsNoError_bind policy fun restart cell => ?_
    cases restart with
    | limitReached | restarted _ _ _ _ _ | restartedGroup _ | notRestarted _ _ _ =>
      exact returnsNoError_ok _ _
  refine returnsNoError_bind restarted fun result s' => ?_
  obtain ⟨restart, _ | parentId⟩ := result
  · exact returnsNoError_ok _ _
  · exact returnsNoError_ok _ _

end Clear

/-! ## Runs -/

/-- `elsewhere` is the rest of the runtime: the supervision system, the scheduler and the process
table as the other calls leave them. -/
inductive RuntimeRequest where
  | beginShutdown (supervisorId : VmSupervisorId) (childId : String) (nowTick : UInt64)
  | completeShutdown (supervisorId : VmSupervisorId) (childId : String)
  | advanceShutdownClock (nowTick : UInt64)
  | restartNow (supervisorId : VmSupervisorId) (childId reason : String)
  | elsewhere (system : VmSupervisionSystem) (scheduling : Scheduler.Scheduling)

def endedRuntime {α : Type} (m : RuntimeM α) (s : VmSupervisionRuntime) :
    VmSupervisionRuntime × Except (Fault String) Unit :=
  ((m.call s).1, (m.call s).2.map fun _ => ())

def runtimeCall (s : VmSupervisionRuntime) :
    RuntimeRequest → VmSupervisionRuntime × Except (Fault String) Unit
  | .beginShutdown supervisorId childId nowTick =>
    endedRuntime (beginShutdown supervisorId childId nowTick) s
  | .completeShutdown supervisorId childId =>
    endedRuntime (completeShutdown supervisorId childId) s
  | .advanceShutdownClock nowTick =>
    endedRuntime (advanceShutdownClock nowTick) s
  | .restartNow supervisorId childId reason =>
    endedRuntime (restartNow supervisorId childId reason) s
  | .elsewhere system scheduling =>
    ({ s with system, timing := { s.timing with scheduling } }, .ok ())

/-- A runtime without supervisors, timers or pending shutdowns. -/
def VmSupervisionRuntime.empty (scheduling : Scheduler.Scheduling) : VmSupervisionRuntime :=
  ⟨.new, .new, ⟨.new, scheduling⟩⟩

def runtimeAfter (scheduling : Scheduler.Scheduling) (requests : List RuntimeRequest) :
    VmSupervisionRuntime := (replay runtimeCall (.empty scheduling) requests).1

def VmSupervisionRuntime.pidOf (s : VmSupervisionRuntime) (supervisorId : VmSupervisorId)
    (childId : String) : Option VmProcessId := s.supervised.pidOf supervisorId childId

/-- A completion returns an error and has changed nothing, or it ends the process that the
pending shutdown was requested for, which the child still has, and restarts the child. -/
def ActsOnOwn (s : VmSupervisionRuntime) (supervisorId : VmSupervisorId) (childId : String) :
    Prop :=
  let after := (completeShutdown supervisorId childId).call s
  (∃ text, after.2 = .error (.returned text) ∧ after.1.system = s.system ∧
    after.1.processes = s.processes) ∨
  (∀ text, after.2 ≠ .error (.returned text)) ∧
    ∃ timerId pending, s.shutdown.pendingChildren[(supervisorId, childId)]? = some timerId ∧
      s.shutdown.pending[timerId]? = some pending ∧
      (pending.supervisorId, pending.childId) = (supervisorId, childId) ∧
      s.pidOf supervisorId childId = some pending.pid ∧
      after.1.supervised = ((Supervised.restartChild supervisorId childId .normal).call
        ⟨s.system, ((VmProcessTable.exitProcess pending.pid .normal).call s.processes).1⟩).1

/-- Neither a missing process nor one that is being executed is among those that the policy
restarts with the child. -/
def RestartClear (s : VmSupervisionRuntime) (supervisorId : VmSupervisorId) (childId : String) :
    Prop :=
  ∀ supervisor : VmSupervisor, s.system.supervisors[supervisorId]? = some supervisor →
    supervisor.policy = .oneForOne ∨
      (∃ first, (selectedChildren supervisor childId).find? (exhausted supervisor .normal) =
        some first) ∨
      ∀ other ∈ selectedChildren supervisor childId, ∀ pid,
        supervisor.pidOf other = some pid → ¬ Held s.processes pid

/-- When the process of the child can be ended, a shutdown is pending for it, its timer has not
fired, and nothing is in the way of the restart. -/
def Completable (s : VmSupervisionRuntime) (supervisorId : VmSupervisorId) (childId : String) :
    Prop :=
  ∀ pid (actor : VmActor), s.pidOf supervisorId childId = some pid →
    s.processes.view pid = some actor →
    actor.lifecycle ∉ [VmActorLifecycle.executing, .retired] →
    (∃ timerId pending, s.shutdown.pendingChildren[(supervisorId, childId)]? = some timerId ∧
      s.shutdown.pending[timerId]? = some pending ∧ pending.pid = pid ∧
      timerId ∈ s.timing.timers.timers) ∧
    RestartClear s supervisorId childId

def RuntimeRequest.Meets (s : VmSupervisionRuntime) : RuntimeRequest → Prop
  | .beginShutdown _ _ _ => s.timing.timers.nextTimerId.toNat < u64Max
  | .completeShutdown supervisorId childId => Completable s supervisorId childId
  | .elsewhere _ scheduling => scheduling.processes.Sound
  | _ => True

section Own

variable {s : VmSupervisionRuntime} {supervisorId : VmSupervisorId} {childId : String}

theorem childPid_cases (system : VmSupervisionSystem) (supervisorId : VmSupervisorId)
    (childId : String) : (∃ text, childPid system supervisorId childId = .error (.returned text)) ∨
      ∃ supervisor child, system.supervisors[supervisorId]? = some supervisor ∧
        supervisor.children[childId]? = some child ∧
        childPid system supervisorId childId = .ok child.pid := by
  unfold childPid childShutdownConfig
  cases found : system.supervisors[supervisorId]? with
  | none => exact .inl ⟨_, rfl⟩
  | some supervisor =>
    cases foundChild : supervisor.children[childId]? with
    | none =>
      refine .inl ⟨s!"missing child `{childId}`", ?_⟩
      simp only [foundChild]
      rfl
    | some child =>
      refine .inr ⟨supervisor, child, rfl, foundChild, ?_⟩
      simp only [foundChild]
      rfl

/-- The pending shutdown of a process that has just been ended. -/
theorem completeShutdown_settles {timerId : VmTimerId}
    {pending : VmPendingSupervisionShutdown} {reason : VmExitReason}
    (index : s.shutdown.pendingChildren[(supervisorId, childId)]? = some timerId)
    (found : s.shutdown.pending[timerId]? = some pending)
    (key : (pending.supervisorId, pending.childId) = (supervisorId, childId))
    (ended : exitReason s.processes childId pending.pid = .ok reason)
    (active : timerId ∈ s.timing.timers.timers) :
    let after := (VmSupervisionShutdownQueue.completeShutdown supervisorId childId).call s
    let restarted := (Supervised.restartChild supervisorId childId reason).call s.supervised
    after.1.supervised = restarted.1 ∧ (ReturnsNoError restarted → ReturnsNoError after) := by
  obtain ⟨rfl, rfl⟩ := Prod.mk.inj key
  obtain ⟨timer, foundTimer⟩ := Option.isSome_iff_exists.mp
    (ExtTreeMap.mem_iff_isSome_getElem?.mp active)
  have cancelled : ∃ timers event, (cancelTimer timerId).call s =
      ({ s with timing := { s.timing with timers } }, .ok event) := by
    refine ⟨(s.timing.timers.cancel timerId).1, .cancelled timerId timer.owner timer.kind, ?_⟩
    unfold cancelTimer onTiming VmTimerTable.cancel
    rw [call_within, call_ofCall]
    dsimp only
    rw [foundTimer]
    rfl
  obtain ⟨timers, event, run⟩ := cancelled
  unfold VmSupervisionShutdownQueue.completeShutdown
  rw [call_get_bind, index]
  dsimp only
  rw [found]
  dsimp only
  rw [call_check_bind, ended]
  dsimp only
  rw [call_bind, run]
  dsimp only
  have settled : ∀ s' : VmSupervisionRuntime, s'.supervised = s.supervised →
      let after := (onSupervised (Supervised.restartChild pending.supervisorId pending.childId
        reason) >>= fun restart => pure (VmSupervisionShutdownCompletion.exited timerId reason
          restart)).call s'
      let restarted := (Supervised.restartChild pending.supervisorId pending.childId
        reason).call s.supervised
      after.1.supervised = restarted.1 ∧ (ReturnsNoError restarted → ReturnsNoError after) := by
    intro s' same
    unfold onSupervised
    rw [call_bind, call_within, same]
    rcases (Supervised.restartChild pending.supervisorId pending.childId reason).call
      s.supervised with ⟨last, e | restart⟩
    · exact ⟨rfl, fun clear text failed => clear text (by cases failed; rfl)⟩
    · exact ⟨rfl, fun _ => returnsNoError_ok _ _⟩
  exact settled _ rfl

/-- The completion of a shutdown that is pending for the process that the child still has. -/
theorem completable_actsOnOwn (steady : Steady s)
    (completable : Completable s supervisorId childId) : ActsOnOwn s supervisorId childId := by
  unfold ActsOnOwn completeShutdown
  rw [call_get_bind, call_check_bind]
  rcases childPid_cases s.system supervisorId childId with
    ⟨text, missing⟩ | ⟨supervisor, child, foundSupervisor, foundChild, named⟩
  · rw [missing]
    exact .inl ⟨text, rfl, rfl, rfl⟩
  rw [named]
  have running : s.pidOf supervisorId childId = some child.pid := by
    refine (pidOf_found (s := s.supervised) foundSupervisor childId).trans ?_
    rw [VmSupervisor.pidOf, foundChild]
    rfl
  dsimp only
  unfold onProcesses
  rw [call_bind, call_within, call_orReturn]
  rcases steady.processes.exitProcess_cases child.pid .normal with
    ⟨text, run, _⟩ | ⟨table, actor, run, found, live, becomes⟩
  · rw [run]
    exact .inl ⟨text, rfl, rfl, rfl⟩
  rw [run]
  obtain ⟨⟨timerId, pending, index, there, own, active⟩, clear⟩ :=
    completable child.pid actor running found live
  obtain ⟨pending', there', key⟩ := steady.indexed.child _ timerId index
  cases there.symm.trans there'
  have ended : exitReason table childId pending.pid = .ok .normal := by
    unfold exitReason processState
    rw [own, becomes.get, if_pos rfl]
    rfl
  obtain ⟨evolves, finished⟩ := Evolves.of_exit becomes
  obtain ⟨same, clean⟩ := @completeShutdown_settles (s.withProcesses table) supervisorId childId
    timerId pending .normal index there key ended active
  refine .inr ⟨clean ?_, timerId, pending, index, there, key, own ▸ running, ?_⟩
  · refine @restartChild_clear .normal childId ⟨s.system, table⟩ becomes.sound supervisorId
      supervisor child foundSupervisor foundChild (not_held_of_ended finished) ?_
    exact (clear supervisor foundSupervisor).imp_right fun clear => clear.imp_right
      fun clear other listed pid named held => clear other listed pid named (evolves.held held)
  · rw [own, run]
    exact same

/-- A deadline that is due for an earlier incarnation ends and replaces nothing. -/
theorem handleTimerEvent_stale {event : VmTimerEvent} {pending : VmPendingSupervisionShutdown}
    (found : s.shutdown.pending[event.timerId]? = some pending)
    (stale : s.pidOf pending.supervisorId pending.childId ≠ some pending.pid) :
    ((handleTimerEvent event).call s).1.supervised = s.supervised := by
  have expired : ∀ s' : VmSupervisionRuntime, s'.supervised = s.supervised →
      ((expireShutdown event.timerId pending).call s').1.supervised = s.supervised := by
    intro s' same
    have system : s'.system = s.system := congrArg Supervised.system same
    unfold expireShutdown
    rw [call_get_bind, call_check_bind, system]
    rcases childPid_cases s.system pending.supervisorId pending.childId with
      ⟨text, missing⟩ | ⟨supervisor, child, foundSupervisor, foundChild, named⟩
    · rw [missing]
      exact same
    rw [named]
    have other : child.pid ≠ pending.pid := by
      intro eq
      refine stale (((pidOf_found (s := s.supervised) foundSupervisor pending.childId).trans
        ?_).trans (congrArg some eq))
      rw [VmSupervisor.pidOf, foundChild]
      rfl
    dsimp only
    rw [if_pos other]
    exact same
  unfold handleTimerEvent
  rw [call_get_bind]
  dsimp only
  rw [found]
  dsimp only
  rw [call_bind]
  cases event with
  | cancelled | ownerExited => rfl
  | fired timerId owner kind | deadlineMissed timerId owner kind late =>
    refine Eq.trans ?_
      (expired { s with shutdown := s.shutdown.removePending timerId pending } rfl)
    exact congrArg _ (congrArg Prod.fst (call_map _ _ _))
  | coalesced | overflow => rfl

theorem steady_runtimeCall {request : RuntimeRequest} (steady : Steady s)
    (meets : request.Meets s) : Steady (runtimeCall s request).1 := by
  cases request with
  | beginShutdown supervisorId childId nowTick => exact steady_beginShutdown steady meets
  | completeShutdown supervisorId childId =>
    have keeps : Keeps Steady (completeShutdown supervisorId childId) :=
      keeps_get_bind fun s => keeps_bind (keeps_lift _) fun pid =>
        keeps_bind (keeps_onProcesses (keeps_exitProcess pid .normal)) fun _ =>
          keeps_completeShutdown supervisorId childId
    exact keeps s steady
  | advanceShutdownClock nowTick => exact keeps_advanceClock nowTick s steady
  | restartNow supervisorId childId reason =>
    exact keeps_onSupervised (keeps_restartChild supervisorId childId (.error reason)) s steady
  | elsewhere system scheduling => exact ⟨meets, steady.timers, steady.indexed⟩

end Own

theorem steady_empty {scheduling : Scheduler.Scheduling} (sound : scheduling.processes.Sound) :
    Steady (.empty scheduling) := by
  refine ⟨sound, fun id timer found => ?_, fun key timerId found => ?_,
    fun timerId pending found => ?_⟩
  · rw [show (empty scheduling).timing.timers.timers[id]? = none from
      ExtTreeMap.getElem?_empty] at found
    cases found
  · rw [show (empty scheduling).shutdown.pendingChildren[key]? = none from
      ExtTreeMap.getElem?_empty] at found
    cases found
  · rw [show (empty scheduling).shutdown.pending[timerId]? = none from
      ExtTreeMap.getElem?_empty] at found
    cases found

theorem steady_runtimeAfter {scheduling : Scheduler.Scheduling} (sound : scheduling.processes.Sound)
    {requests : List RuntimeRequest}
    (meets : Guarded runtimeCall (fun s request => request.Meets s) (.empty scheduling) requests) :
    Steady (runtimeAfter scheduling requests) :=
  replay_invariant_of runtimeCall (fun s request => request.Meets s) (fun s _ => Steady s)
    (fun _ _ _ meets steady => steady_runtimeCall steady meets) (.empty scheduling) [] requests
    (steady_empty sound) meets

theorem shutdown_acts_on_own {scheduling : Scheduler.Scheduling}
    (sound : scheduling.processes.Sound) {requests : List RuntimeRequest}
    (meets : Guarded runtimeCall (fun s request => request.Meets s) (.empty scheduling) requests) :
    (∀ earlier supervisorId childId later,
      requests = earlier ++ .completeShutdown supervisorId childId :: later →
      ActsOnOwn (runtimeAfter scheduling earlier) supervisorId childId) ∧
    ∀ (s : VmSupervisionRuntime) (event : VmTimerEvent) (pending : VmPendingSupervisionShutdown),
      s.shutdown.pending[event.timerId]? = some pending →
      s.pidOf pending.supervisorId pending.childId ≠ some pending.pid →
      ((handleTimerEvent event).call s).1.supervised = s.supervised := by
  refine ⟨?_, fun s event pending found stale => handleTimerEvent_stale found stale⟩
  rintro earlier supervisorId childId later rfl
  obtain ⟨before, now, _⟩ := (guarded_append runtimeCall _ _ _ _).mp meets
  exact completable_actsOnOwn (steady_runtimeAfter sound before) now

/-- A supervisor with one child that is given time to shut down. -/
def patientRequests : List Request :=
  [.createSupervisor "group" .oneForOne,
    .startChild ⟨1⟩ { memberSpec "a" 2 with shutdownTimeout := some 5 }]

def patientChild : Supervised := after .new patientRequests

def patientScheduling (processes : VmProcessTable) : Scheduler.Scheduling :=
  Scheduler.start (.new 100 64) 1 processes

/-- The child is asked to shut down. -/
def patientRun : List RuntimeRequest :=
  [.elsewhere patientChild.system (patientScheduling patientChild.processes),
    .beginShutdown ⟨1⟩ "a" 0]

/-- It is restarted before the shutdown is completed. -/
def staleRun : List RuntimeRequest := patientRun ++ [.restartNow ⟨1⟩ "a" "again"]

/-- The process that replaced the one asked to shut down is ended and replaced. -/
theorem shutdown_acts_on_own_fails :
    ¬ ActsOnOwn (runtimeAfter (patientScheduling .new) staleRun) ⟨1⟩ "a" := by
  have finished : ((completeShutdown ⟨1⟩ "a").call
      (runtimeAfter (patientScheduling .new) staleRun)).2.isOk = true := by decide +kernel
  have current : (runtimeAfter (patientScheduling .new) staleRun).pidOf ⟨1⟩ "a" = some ⟨3⟩ := by
    decide +kernel
  have asked : (runtimeAfter (patientScheduling .new) staleRun).shutdown.pending[
      (⟨1⟩ : VmTimerId)]?.map (·.pid) = some ⟨1⟩ := by decide +kernel
  have index : (runtimeAfter (patientScheduling .new) staleRun).shutdown.pendingChildren[
      ((⟨1⟩, "a") : VmSupervisorId × String)]? = some ⟨1⟩ := by decide +kernel
  rintro (⟨text, failed, _⟩ | ⟨_, timerId, pending, index', found, _, own, _⟩)
  · rw [failed] at finished
    cases finished
  · cases index.symm.trans index'
    rw [found] at asked
    have old : pending.pid = ⟨1⟩ := Option.some.inj asked
    have new : (⟨3⟩ : VmProcessId) = pending.pid := Option.some.inj (current.symm.trans own)
    rw [old] at new
    cases new

theorem patientChild_sound : patientChild.processes.Sound := by
  have regular : Guarded call (fun s request => request.Regular s) ⟨.new, .new⟩
      patientRequests := by
    refine ⟨?_, trivial, trivial⟩
    show (0 : UInt64).toNat < u64Max
    decide
  exact (healthy_after VmProcessTable.sound_new regular).sound

theorem patientRun_completable :
    Completable (runtimeAfter (patientScheduling .new) patientRun) ⟨1⟩ "a" := by
  have current : (runtimeAfter (patientScheduling .new) patientRun).pidOf ⟨1⟩ "a" = some ⟨1⟩ := by
    decide +kernel
  have asked : (runtimeAfter (patientScheduling .new) patientRun).shutdown.pending[
      (⟨1⟩ : VmTimerId)]?.map (·.pid) = some ⟨1⟩ := by decide +kernel
  have index : (runtimeAfter (patientScheduling .new) patientRun).shutdown.pendingChildren[
      ((⟨1⟩, "a") : VmSupervisorId × String)]? = some ⟨1⟩ := by decide +kernel
  have policy : (runtimeAfter (patientScheduling .new) patientRun).system.supervisors[
      (⟨1⟩ : VmSupervisorId)]?.map (·.policy) = some .oneForOne := by decide +kernel
  intro pid actor running _ _
  obtain ⟨pending, there, own⟩ := Option.map_eq_some_iff.mp asked
  refine ⟨⟨⟨1⟩, pending, index, there, ?_, by decide +kernel⟩, fun supervisor found => .inl ?_⟩
  · exact own.trans (Option.some.inj (current.symm.trans running))
  · rw [found] at policy
    exact Option.some.inj policy

theorem patientRun_meets :
    Guarded runtimeCall (fun s request => request.Meets s) (.empty (patientScheduling .new))
      (patientRun ++ [.completeShutdown ⟨1⟩ "a"]) := by
  refine (guarded_append _ _ _ _ _).mpr ⟨⟨patientChild_sound, ?_, trivial⟩, ?_, trivial⟩
  · show (_ : UInt64).toNat < u64Max
    decide +kernel
  · exact patientRun_completable

theorem shutdown_acts_on_own_patient :
    ActsOnOwn (runtimeAfter (patientScheduling .new) patientRun) ⟨1⟩ "a" :=
  (shutdown_acts_on_own VmProcessTable.sound_new patientRun_meets).1 patientRun ⟨1⟩ "a" [] rfl

end Terlan.Supervision
