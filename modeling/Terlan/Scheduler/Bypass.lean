/-
  How long a process waits in its queue.

  `Quiet spared a b`: from `a` to `b` the cursor stays where it is and no spared process loses
  its place. `Path spared a points b` leads from `a` to `b` over the dequeues that are made in
  the schedulers `points`, and is quiet between them.

  * `call_path`: every operation is such a path, the polls of `run_next` included.
  * `bounded_bypass`: a process at position `k` of a queue is among the next `6 * (k + 1)`
    dequeues; while no queue is empty, six dequeues serve the classes 3, 2 and 1 times.
-/
import Terlan.Lib.Rotation
import Terlan.Scheduler

namespace Terlan.Scheduler

open Terlan.Lib Terlan.ActorDirectory Terlan.Process VmScheduler List Function
open Scheduling

/-! ## A dequeue as a turn of the rotation -/

/-- The classes that have entries. -/
def VmScheduler.busy (self : VmScheduler) (class_ : VmSchedulerClass) : Bool :=
  !(self.queues class_).isEmpty

/-- The class whose queue a dequeue shortens. -/
def VmScheduler.servedClass (self : VmScheduler) : Option VmSchedulerClass :=
  [VmSchedulerClass.priority, .normal, .background].find? fun class_ =>
    self.dequeue.1.queues class_ ≠ self.queues class_

/-- The process of an entry that a dequeue returns. -/
def VmScheduler.dequeuedPid (self : VmScheduler) : Option VmProcessId :=
  self.dequeue.2.map (·.1)

variable {scheduler : VmScheduler}

theorem pollClass_nil
    (queue : scheduler.queues (vmSchedulerClassCycle scheduler.classCycleCursor) = []) :
    scheduler.pollClass =
      ({ scheduler with classCycleCursor := scheduler.classCycleCursor + 1 }, none) := by
  simp only [pollClass, queue]

theorem pollClass_cons {pid : VmProcessId} {rest : List VmProcessId}
    (queue : scheduler.queues (vmSchedulerClassCycle scheduler.classCycleCursor) = pid :: rest) :
    ∃ after tick, scheduler.pollClass = (after, some (pid, tick)) ∧
      after.classCycleCursor = scheduler.classCycleCursor + 1 ∧
      after.queues = Function.update scheduler.queues
        (vmSchedulerClassCycle scheduler.classCycleCursor) rest := by
  refine ⟨scheduler.pollClass.1, (scheduler.enqueuedAt[pid]?).getD scheduler.tick, ?_, ?_, ?_⟩
  · simp only [pollClass, queue]
    rfl
  · simp only [pollClass, queue]
    rfl
  · simp only [pollClass, queue]
    rfl

/-- The polls go to the class that the rotation serves, and take the first entry there. -/
theorem pollClasses_turn (polls : Nat) (scheduler : VmScheduler) :
    ∃ served, Rotation.serve vmSchedulerClassCycle scheduler.busy polls scheduler.classCycleCursor =
        ((pollClasses polls scheduler).1.classCycleCursor, served) ∧
      ((served = none ∧ (pollClasses polls scheduler).1.queues = scheduler.queues) ∨
        ∃ class_ pid rest tick, served = some class_ ∧ scheduler.queues class_ = pid :: rest ∧
          (pollClasses polls scheduler).2 = some (pid, tick) ∧
          (pollClasses polls scheduler).1.queues =
            Function.update scheduler.queues class_ rest) := by
  induction polls generalizing scheduler with
  | zero => exact ⟨none, rfl, .inl ⟨rfl, rfl⟩⟩
  | succ polls ih =>
    rw [Rotation.serve, pollClasses]
    cases queue : scheduler.queues (vmSchedulerClassCycle scheduler.classCycleCursor) with
    | nil =>
      have idle : ¬ scheduler.busy (vmSchedulerClassCycle scheduler.classCycleCursor) = true := by
        simp [busy, queue]
      rw [if_neg idle, pollClass_nil queue]
      exact ih { scheduler with classCycleCursor := scheduler.classCycleCursor + 1 }
    | cons pid rest =>
      have work : scheduler.busy (vmSchedulerClassCycle scheduler.classCycleCursor) = true := by
        simp [busy, queue]
      obtain ⟨after, tick, poll, cursor, queues⟩ := pollClass_cons queue
      rw [if_pos work, poll, ← cursor]
      exact ⟨_, rfl, .inr ⟨_, pid, rest, tick, rfl, queue, rfl, queues⟩⟩

theorem servedClass_of_queues_eq
    (same : scheduler.dequeue.1.queues = scheduler.queues) : scheduler.servedClass = none := by
  refine find?_eq_none.mpr fun class_ _ => ?_
  rw [same]
  simp

theorem servedClass_of_queues_update {class_ : VmSchedulerClass}
    {pid : VmProcessId} {rest : List VmProcessId} (queue : scheduler.queues class_ = pid :: rest)
    (after : scheduler.dequeue.1.queues = Function.update scheduler.queues class_ rest) :
    scheduler.servedClass = some class_ := by
  have shorter : scheduler.dequeue.1.queues class_ ≠ scheduler.queues class_ := by
    rw [after, queue, update_self]
    exact (cons_ne_self pid rest).symm
  have others : ∀ other, other ≠ class_ →
      scheduler.dequeue.1.queues other = scheduler.queues other := by
    intro other differ
    rw [after, update_of_ne differ]
  unfold servedClass
  cases class_ with
  | priority => simp [shorter]
  | normal => simp [shorter, others .priority (by decide)]
  | background =>
    simp [shorter, others .priority (by decide), others .normal (by decide)]

/-- A dequeue serves a class by rotation. -/
theorem dequeue_turn (scheduler : VmScheduler) :
    Rotation.serve vmSchedulerClassCycle scheduler.busy 6 scheduler.classCycleCursor =
      (scheduler.dequeue.1.classCycleCursor, scheduler.servedClass) := by
  obtain ⟨served, turn, ⟨rfl, same⟩ | ⟨class_, pid, rest, tick, rfl, queue, -, after⟩⟩ :=
    pollClasses_turn 6 scheduler
  · rw [servedClass_of_queues_eq same]
    exact turn
  · rw [servedClass_of_queues_update queue after]
    exact turn

theorem dequeue_of_servedClass {class_ : VmSchedulerClass}
    (served : scheduler.servedClass = some class_) :
    ∃ pid rest, scheduler.queues class_ = pid :: rest ∧ scheduler.dequeuedPid = some pid ∧
      scheduler.dequeue.1.queues = Function.update scheduler.queues class_ rest := by
  obtain ⟨served', -, ⟨-, same⟩ | ⟨class', pid, rest, tick, -, queue, entry, after⟩⟩ :=
    pollClasses_turn 6 scheduler
  · rw [servedClass_of_queues_eq same] at served
    cases served
  rw [servedClass_of_queues_update queue after] at served
  cases served
  refine ⟨pid, rest, queue, ?_, after⟩
  unfold VmScheduler.dequeuedPid VmScheduler.dequeue
  rw [entry]
  rfl

/-! ## Places -/

/-- A queue only grows at its end. -/
theorem enqueueUncheckedRaw_queues (scheduler : VmScheduler) (pid : VmProcessId)
    (class_ : VmSchedulerClass) :
    ∃ more, (scheduler.enqueueUncheckedRaw pid).queues class_ = scheduler.queues class_ ++ more := by
  obtain ⟨base, same, queues⟩ : ∃ base, base = (if scheduler.classes.contains pid then scheduler
      else scheduler.setClass pid (scheduler.classOf pid)) ∧
        base.queues = scheduler.queues := by
    refine ⟨_, rfl, ?_⟩
    split <;> rfl
  unfold VmScheduler.enqueueUncheckedRaw
  dsimp only
  rw [← same]
  split
  · exact ⟨[], by rw [queues, append_nil]⟩
  change ∃ more, Function.update base.queues _ (base.queues _ ++ [pid]) class_ = _
  rw [queues]
  by_cases own : class_ = scheduler.classOf pid
  · exact ⟨[pid], by rw [own, update_self]⟩
  · exact ⟨[], by rw [update_of_ne own, append_nil]⟩

theorem removeQueued_queues (scheduler : VmScheduler) (pid : VmProcessId)
    (class_ : VmSchedulerClass) :
    (scheduler.removeQueued pid).queues class_ = scheduler.queues class_ ∨
      (scheduler.removeQueued pid).queues class_ = (scheduler.queues class_).filter (· ≠ pid) := by
  unfold VmScheduler.removeQueued
  dsimp only
  split
  · change Function.update _ _ _ class_ = _ ∨ Function.update _ _ _ class_ = _
    by_cases own : class_ = scheduler.classOf pid
    · right
      rw [own, update_self]
    · left
      rw [update_of_ne own]
  · exact .inl rfl

/-- At most `ahead` entries stand before the process in the queue of a class. -/
def Waits (pid : VmProcessId) (class_ : VmSchedulerClass) (ahead : Nat)
    (scheduler : VmScheduler) : Prop :=
  ∃ before behind, scheduler.queues class_ = before ++ pid :: behind ∧ before.length ≤ ahead

/-- The cursor stays, and no spared process loses its place. -/
structure Quiet (spared : VmProcessId → Prop) (a b : VmScheduler) : Prop where
  cursor : b.classCycleCursor = a.classCycleCursor
  waits : ∀ pid, spared pid → ∀ class_ ahead, Waits pid class_ ahead a → Waits pid class_ ahead b

namespace Quiet

variable {spared : VmProcessId → Prop} {a b c : VmScheduler}

theorem refl (a : VmScheduler) : Quiet spared a a := ⟨rfl, fun _ _ _ _ => id⟩

theorem trans (first : Quiet spared a b) (second : Quiet spared b c) : Quiet spared a c :=
  ⟨second.cursor.trans first.cursor, fun pid kept class_ ahead waits =>
    second.waits pid kept class_ ahead (first.waits pid kept class_ ahead waits)⟩

/-- What is left of the scheduler besides cursor and queues does not matter. -/
theorem congr (h : Quiet spared a b) (cursor : c.classCycleCursor = b.classCycleCursor)
    (queues : c.queues = b.queues) : Quiet spared a c := by
  refine ⟨cursor.trans h.cursor, fun pid kept class_ ahead waits => ?_⟩
  obtain ⟨before, behind, queue, short⟩ := h.waits pid kept class_ ahead waits
  exact ⟨before, behind, (congrFun queues class_).trans queue, short⟩

theorem enqueueUncheckedRaw (h : Quiet spared a b) (pid : VmProcessId) :
    Quiet spared a (b.enqueueUncheckedRaw pid) := by
  refine h.trans ⟨?_, fun other _ class_ ahead waits => ?_⟩
  · unfold VmScheduler.enqueueUncheckedRaw
    dsimp only
    split_ifs <;> rfl
  · obtain ⟨before, behind, queue, short⟩ := waits
    obtain ⟨more, grown⟩ := enqueueUncheckedRaw_queues b pid class_
    exact ⟨before, behind ++ more, by rw [grown, queue, append_assoc, cons_append], short⟩

/-- A process that is not spared may be removed. -/
theorem removeQueued (h : Quiet spared a b) {pid : VmProcessId} (free : ¬ spared pid) :
    Quiet spared a (b.removeQueued pid) := by
  refine h.trans ⟨?_, fun other kept class_ ahead waits => ?_⟩
  · unfold VmScheduler.removeQueued
    split_ifs <;> rfl
  · obtain ⟨before, behind, queue, short⟩ := waits
    have differ : other ≠ pid := by
      rintro rfl
      exact free kept
    rcases removeQueued_queues b pid class_ with same | filtered
    · exact ⟨before, behind, same.trans queue, short⟩
    · refine ⟨before.filter (· ≠ pid), behind.filter (· ≠ pid), ?_,
        (length_filter_le _ _).trans short⟩
      rw [filtered, queue, filter_append, filter_cons_of_pos (by simpa using differ)]

end Quiet

/-! ## Operations are quiet -/

section Operations

variable {ε α : Type} {spared : VmProcessId → Prop} {a : VmScheduler} (pid : VmProcessId)

theorem quiet_enqueueUnchecked : Keeps (On (Quiet spared a)) (enqueueUnchecked pid) :=
  keeps_bind (keeps_table _) fun _ => leads_self fun _ h => h.enqueueUncheckedRaw pid

theorem quiet_setClass (class_ : VmSchedulerClass) :
    Keeps (On (Quiet spared a)) (self (·.setClass pid class_) : Method ε Scheduling Unit) :=
  leads_self fun _ h => h.congr rfl rfl

theorem quiet_dropClass :
    Keeps (On (Quiet spared a)) (self (·.dropClass pid) : Method ε Scheduling Unit) :=
  leads_self fun _ h => h.congr rfl rfl

theorem quiet_removeQueued {pid : VmProcessId} (free : ¬ spared pid) :
    Keeps (On (Quiet spared a)) (self (·.removeQueued pid) : Method ε Scheduling Unit) :=
  leads_self fun _ h => h.removeQueued free

theorem quiet_chargeProcessReductions (reductions : UInt64) (label : String) (allowExited : Bool) :
    Keeps (On (Quiet spared a)) (chargeProcessReductions pid reductions label allowExited) := by
  refine keeps_get_bind fun s => keeps_bind (keeps_lift _) fun _ =>
    keeps_bind (keeps_table _) fun _ => keeps_bind ?_ fun _ => keeps_pure _
  exact leads_self fun _ h => h.congr rfl rfl

theorem quiet_registerFixedOwner : Keeps (On (Quiet spared a)) (registerFixedOwner pid) :=
  keeps_bind (keeps_table _) fun _ => quiet_setClass pid .normal

theorem quiet_enqueueRunnableWithClass (class_ : VmSchedulerClass) :
    Keeps (On (Quiet spared a)) (enqueueRunnableWithClass pid class_) := by
  refine keeps_get_bind fun s => ?_
  split
  · exact keeps_throw _
  refine leads_check_bind (fun _ h => h) fun _ _ => leads_check_bind (fun _ h => h) fun _ _ => ?_
  exact keeps_bind (quiet_setClass pid class_) fun _ => quiet_enqueueUnchecked pid

theorem quiet_setProcessClass {pid : VmProcessId} (free : ¬ spared pid)
    (class_ : VmSchedulerClass) : Keeps (On (Quiet spared a)) (setProcessClass pid class_) := by
  have charge : Keeps (On (Quiet spared a)) (do
      let _ ← chargeRuntimeReductions pid vmSchedulerOperationReductions
      return () : Method String Scheduling Unit) :=
    keeps_bind (quiet_chargeProcessReductions pid _ _ _) fun _ => keeps_pure _
  refine keeps_get_bind fun s => ?_
  split
  · exact keeps_throw _
  refine leads_check_bind (fun _ h => h) fun _ _ =>
    leads_ite (fun _ => charge) fun _ => leads_ite (fun _ => ?_) fun _ => ?_
  · exact keeps_bind (quiet_removeQueued free) fun _ =>
      keeps_bind (quiet_setClass pid class_) fun _ =>
        keeps_bind (quiet_enqueueUnchecked pid) fun _ => charge
  · exact keeps_bind (quiet_setClass pid class_) fun _ => charge

theorem quiet_importProcessPlacement (transfer : VmSchedulerPlacementTransfer) :
    Keeps (On (Quiet spared a)) (importProcessPlacement transfer) := by
  refine keeps_get_bind fun s => leads_check_bind (fun _ h => h) fun _ _ =>
    keeps_bind (quiet_setClass _ _) fun _ => keeps_bind ?_ fun _ => ?_
  · refine leads_self fun scheduler h => ?_
    cases transfer.metrics with
    | none => exact h
    | some metrics => exact h.congr rfl rfl
  · exact leads_ite (fun _ => leads_expect (quiet_enqueueUnchecked _)) fun _ => keeps_pure _

theorem quiet_recordRun (run : VmSchedulerRun) (enqueuedTick : UInt64)
    (preempted : Bool) : Keeps (On (Quiet spared a))
      (self (recordRun pid run enqueuedTick preempted) : Method (Fault String) Scheduling Unit) :=
  leads_self fun _ h => h.congr rfl rfl

theorem quiet_cancelProcess (reductionsCharged : UInt64) :
    Keeps (On (Quiet spared a)) (cancelProcess pid reductionsCharged) :=
  keeps_bind (keeps_table _) fun _ => keeps_bind (quiet_dropClass pid) fun _ =>
    keeps_get_bind fun _ => keeps_pure _

theorem quiet_cancelDequeued (enqueuedTick : UInt64) :
    Keeps (On (Quiet spared a)) (do
      self advanceTick
      let run ← cancelProcess pid 0
      self (recordRun pid run enqueuedTick false)
      return run : Method (Fault String) Scheduling VmSchedulerRun) :=
  keeps_bind (leads_self fun _ h => h.congr rfl rfl) fun _ =>
    keeps_bind (quiet_cancelProcess pid 0) fun _ =>
      keeps_bind (quiet_recordRun _ _ _ _) fun _ => keeps_pure _

theorem quiet_applyDecision (decision : VmSchedulerDecision) :
    Keeps (On (Quiet spared a)) (applyDecision pid decision) := by
  refine keeps_get_bind fun s => ?_
  cases decision with
  | yield reductions =>
    refine leads_ite (fun _ => keeps_bind ?_ fun _ => keeps_pure _) fun _ =>
      keeps_bind (quiet_dropClass pid) fun _ => keeps_pure _
    exact leads_attempt (quiet_enqueueUnchecked pid)
  | block reductions => exact keeps_pure _
  | exit reductions reason =>
    exact keeps_bind (leads_attempt (keeps_table _)) fun _ =>
      keeps_bind (quiet_dropClass pid) fun _ => keeps_pure _

theorem quiet_runDequeued (runSlice : RunSlice) (pid : VmProcessId) (enqueuedTick : UInt64) :
    Keeps (On (Quiet spared a)) (runDequeued runSlice pid enqueuedTick) := by
  refine keeps_bind (leads_self fun _ h => h.congr rfl rfl) fun _ => keeps_get_bind fun s =>
    keeps_bind (leads_orReturn (keeps_table _)) fun token =>
      keeps_bind (leads_orReturn (keeps_table _)) fun _ =>
        keeps_bind (leads_orReturn (keeps_table _)) ?_
  rintro ⟨decision, cancellationAtBoundary⟩
  refine keeps_bind (leads_orReturn (keeps_table _)) fun released =>
    leads_ite (fun _ => ?_) fun _ => leads_ite (fun _ => ?_) fun _ => ?_
  · exact keeps_bind (quiet_cancelProcess pid _) fun _ =>
      keeps_bind (quiet_recordRun _ _ _ _) fun _ => keeps_pure _
  · exact keeps_bind (leads_orReturn (keeps_table _)) fun _ =>
      keeps_bind (leads_orReturn (keeps_table _)) fun _ =>
        keeps_bind (leads_orReturn (quiet_enqueueUnchecked pid)) fun _ =>
          keeps_bind (quiet_recordRun _ _ _ _) fun _ => keeps_pure _
  · exact keeps_bind (quiet_applyDecision pid decision) fun _ =>
      keeps_bind (quiet_recordRun _ _ _ _) fun _ => keeps_pure _

end Operations

/-! ## Dequeues of an operation -/

/-- The schedulers that `runPolls` dequeues from, one after another. -/
def polled : Nat → Scheduling → List VmScheduler
  | 0, _ => []
  | polls + 1, s =>
    s.scheduler ::
      match s.scheduler.dequeue.2 with
      | none => []
      | some (pid, _) =>
        match s.processes.get pid with
        | none => []
        | some process =>
          if process.state.isExited then
            polled polls { s with scheduler := s.scheduler.dequeue.1.dropClass pid }
          else if ¬ process.state.isRunnable then
            polled polls { s with scheduler := s.scheduler.dequeue.1 }
          else []

/-- The schedulers that an operation dequeues from. -/
def dequeuesOf (s : Scheduling) : Request → List VmScheduler
  | .dequeue => [s.scheduler]
  | .runNext _ => polled s.scheduler.config.maxEmptyPolls s
  | _ => []

/-- The dequeues of a run, oldest first. -/
def dequeues : Scheduling → List Request → List VmScheduler
  | _, [] => []
  | s, request :: requests => dequeuesOf s request ++ dequeues (call s request).1 requests

/-- Dequeues with quiet stretches between them. -/
inductive Path (spared : VmProcessId → Prop) : VmScheduler → List VmScheduler → VmScheduler → Prop
  | quiet {a b : VmScheduler} (h : Quiet spared a b) : Path spared a [] b
  | dequeue {a point b : VmScheduler} {points : List VmScheduler} (h : Quiet spared a point)
      (rest : Path spared point.dequeue.1 points b) : Path spared a (point :: points) b

namespace Path

variable {spared : VmProcessId → Prop} {a b c : VmScheduler} {points more : List VmScheduler}

theorem quiet_trans (first : Quiet spared a b) (h : Path spared b points c) :
    Path spared a points c := by
  cases h with
  | quiet second => exact .quiet (first.trans second)
  | dequeue second rest => exact .dequeue (first.trans second) rest

theorem append (first : Path spared a points b) (second : Path spared b more c) :
    Path spared a (points ++ more) c := by
  induction first with
  | quiet h => exact second.quiet_trans h
  | dequeue h _ ih => exact .dequeue h (ih second)

end Path

/-- The request neither removes nor reclassifies a spared process. -/
def Spares (spared : VmProcessId → Prop) : Request → Prop
  | .setProcessClass pid _ => ¬ spared pid
  | .suspendProcess pid => ¬ spared pid
  | .hibernateProcess pid => ¬ spared pid
  | .forgetProcess pid => ¬ spared pid
  | .reapProcessDiagnostics pid => ¬ spared pid
  | .detachProcessPlacement pid => ¬ spared pid
  | _ => True

section

variable {spared : VmProcessId → Prop}

theorem quiet_call {s : Scheduling} {request : Request}
    (h : Keeps (On (Quiet spared s.scheduler)) request.perform)
    (none_ : dequeuesOf s request = []) :
    Path spared s.scheduler (dequeuesOf s request) (call s request).1.scheduler := by
  rw [none_]
  exact .quiet (h s (.refl _))

theorem runPolls_path (runSlice : RunSlice) (polls : Nat) (s : Scheduling) :
    Path spared s.scheduler (polled polls s) ((runPolls runSlice polls).call s).1.scheduler := by
  induction polls generalizing s with
  | zero => exact .quiet (.refl _)
  | succ polls ih =>
    refine .dequeue (.refl _) ?_
    unfold runPolls
    rw [call_get_bind, call_bind]
    change Path spared s.scheduler.dequeue.1 _ (Method.call (match s.scheduler.dequeue.2 with
      | none => idleRun
      | some (pid, enqueuedTick) => _) { s with scheduler := s.scheduler.dequeue.1 }).1.scheduler
    cases entry : s.scheduler.dequeue.2 with
    | none => exact .quiet (.refl _)
    | some found =>
      obtain ⟨pid, enqueuedTick⟩ := found
      dsimp only
      cases s.processes.get pid with
      | none => exact .quiet (.refl _)
      | some process =>
        dsimp only
        rw [call_ite]
        by_cases exited : process.state.isExited = true
        · rw [if_pos exited, if_pos exited]
          unfold Scheduling.self
          rw [call_modify_bind]
          refine Path.quiet_trans ?_
            (ih { s with scheduler := s.scheduler.dequeue.1.dropClass pid })
          exact (Quiet.refl _).congr rfl rfl
        rw [if_neg exited, if_neg exited, call_ite]
        by_cases waits : ¬ process.state.isRunnable = true
        · rw [if_pos waits, if_pos waits]
          exact ih { s with scheduler := s.scheduler.dequeue.1 }
        rw [if_neg waits, if_neg waits, call_ite]
        by_cases cancelled : process.cancellationRequested = true
        · rw [if_pos cancelled]
          exact .quiet (quiet_cancelDequeued pid enqueuedTick _ (.refl _))
        · rw [if_neg cancelled]
          exact .quiet (quiet_runDequeued runSlice pid enqueuedTick _ (.refl _))

theorem call_path {s : Scheduling} {request : Request} (safe : Spares spared request) :
    Path spared s.scheduler (dequeuesOf s request) (call s request).1.scheduler := by
  cases request with
  | enqueueRunnable pid =>
    refine quiet_call (leads_map (leads_orReturn ?_)) rfl
    exact keeps_get_bind fun _ => quiet_enqueueRunnableWithClass pid _
  | enqueueRunnableWithClass pid class_ =>
    exact quiet_call (leads_map (leads_orReturn (quiet_enqueueRunnableWithClass pid class_))) rfl
  | registerFixedOwner pid =>
    exact quiet_call (leads_map (leads_orReturn (quiet_registerFixedOwner pid))) rfl
  | setProcessClass pid class_ =>
    exact quiet_call (leads_map (leads_orReturn (quiet_setProcessClass safe class_))) rfl
  | wakeProcess pid =>
    refine quiet_call (leads_map (leads_orReturn ?_)) rfl
    exact keeps_bind (keeps_onExisting _ _ _) fun _ =>
      leads_ite (fun _ => keeps_pure _) fun _ => quiet_enqueueUnchecked pid
  | suspendProcess | hibernateProcess =>
    refine quiet_call (leads_map (leads_orReturn ?_)) rfl
    exact keeps_bind (keeps_onExisting _ _ _) fun _ => quiet_removeQueued safe
  | resumeProcess pid =>
    refine quiet_call (leads_map (leads_orReturn ?_)) rfl
    exact keeps_bind (keeps_onExisting _ _ _) fun _ =>
      leads_ite (fun _ => quiet_enqueueUnchecked pid) fun _ => keeps_pure _
  | requestCancellation pid =>
    refine quiet_call (leads_map (leads_orReturn ?_)) rfl
    exact keeps_bind (keeps_onExisting _ _ _) fun _ =>
      keeps_bind (quiet_chargeProcessReductions pid _ _ _) fun _ => keeps_pure _
  | chargeRuntimeReductions pid reductions =>
    refine quiet_call (leads_map (leads_orReturn ?_)) rfl
    exact quiet_chargeProcessReductions pid reductions _ _
  | chargeTerminalReductions pid reductions =>
    refine quiet_call (leads_map (leads_orReturn ?_)) rfl
    exact keeps_get_bind fun _ => keeps_bind (keeps_lift _) fun _ =>
      quiet_chargeProcessReductions pid reductions _ _
  | chargeMemoryReductions pid logicalBytes =>
    refine quiet_call (leads_map (leads_orReturn ?_)) rfl
    exact keeps_bind (quiet_chargeProcessReductions pid _ _ _) fun _ =>
      keeps_bind (leads_self fun _ h => h.congr rfl rfl) fun _ => keeps_pure _
  | forgetProcess | reapProcessDiagnostics | detachProcessPlacement =>
    exact .quiet (((Quiet.refl _).removeQueued safe).congr rfl rfl)
  | importProcessPlacement transfer =>
    exact quiet_call (leads_map (quiet_importProcessPlacement transfer)) rfl
  | dequeue => exact .dequeue (.refl _) (.quiet (.refl _))
  | runNext runSlice =>
    have same : (call s (.runNext runSlice)).1 =
        ((runPolls runSlice s.scheduler.config.maxEmptyPolls).call s).1 := by
      unfold call Request.perform
      rw [call_map]
      rfl
    rw [same]
    exact runPolls_path runSlice _ s
  | borrow processes => exact .quiet (.refl _)

theorem replay_path (s : Scheduling) {requests : List Request}
    (safe : ∀ request ∈ requests, Spares spared request) :
    Path spared s.scheduler (dequeues s requests) (replay call s requests).1.scheduler := by
  induction requests generalizing s with
  | nil => exact .quiet (.refl _)
  | cons request requests ih =>
    exact (call_path (safe request mem_cons_self)).append
      (ih (call s request).1 fun r mem => safe r (mem_cons_of_mem _ mem))

end

/-! ## The bound -/

/-- A dequeue as a turn: the classes that had entries, and the one that was served. -/
def turnOf (point : VmScheduler) : (VmSchedulerClass → Bool) × Option VmSchedulerClass :=
  (point.busy, point.servedClass)

theorem exists_slot (class_ : VmSchedulerClass) : ∃ slot, vmSchedulerClassCycle slot = class_ := by
  cases class_ with
  | priority => exact ⟨0, rfl⟩
  | normal => exact ⟨2, rfl⟩
  | background => exact ⟨5, rfl⟩

namespace Path

variable {spared : VmProcessId → Prop} {a b : VmScheduler} {points : List VmScheduler}

theorem turns (h : Path spared a points b) :
    Rotation.Turns vmSchedulerClassCycle a.classCycleCursor (points.map turnOf) := by
  induction h with
  | quiet => trivial
  | @dequeue a point b points quiet _ ih =>
    refine ⟨_, ?_, ih⟩
    rw [← quiet.cursor]
    exact dequeue_turn point

/-- Each dequeue serves the process, one before it, or brings its class nearer. -/
theorem dequeued_of_waits (h : Path spared a points b) {pid : VmProcessId} (kept : spared pid)
    {class_ : VmSchedulerClass} {ahead distance : Nat} (waits : Waits pid class_ ahead a)
    (near : Rotation.Within vmSchedulerClassCycle class_ distance a.classCycleCursor)
    (le : distance ≤ 6) (enough : 6 * ahead + distance ≤ points.length) :
    ∃ point ∈ points.take (6 * ahead + distance), point.dequeuedPid = some pid := by
  induction h generalizing ahead distance with
  | quiet =>
    have zero : distance = 0 := by
      rw [length_nil] at enough
      omega
    rw [zero] at near
    exact near.elim
  | @dequeue a point b points quiet _ ih =>
    have waits := quiet.waits pid kept class_ ahead waits
    obtain ⟨before, behind, queue, short⟩ := waits
    rw [← quiet.cursor] at near
    have busy : point.busy class_ = true := by
      unfold busy
      rw [queue]
      cases before <;> rfl
    obtain ⟨after, served, turn, fate⟩ := Rotation.serve_within busy near le
    rw [dequeue_turn] at turn
    obtain ⟨moved, serves⟩ := Prod.mk.inj turn
    rw [← moved] at fate
    obtain ⟨first, rest, queue', entry, queues⟩ := dequeue_of_servedClass serves
    rw [length_cons] at enough
    have some_ : distance ≠ 0 := by
      rintro rfl
      exact near
    obtain ⟨budget, eq⟩ : ∃ budget, 6 * ahead + distance = budget + 1 :=
      ⟨6 * ahead + distance - 1, by omega⟩
    rw [eq, take_succ_cons]
    -- a dequeue among the rest, with a smaller budget
    have later : ∀ {ahead' distance' : Nat}, 6 * ahead' + distance' ≤ budget →
        (∃ found ∈ points.take (6 * ahead' + distance'), found.dequeuedPid = some pid) →
        ∃ found ∈ point :: points.take budget, found.dequeuedPid = some pid := by
      rintro ahead' distance' less ⟨found, mem, hit⟩
      exact ⟨found, mem_cons_of_mem _ (take_subset_take_left points less mem), hit⟩
    by_cases own : served = class_
    · rw [own, queue] at queue'
      cases before with
      | nil =>
        cases queue'
        exact ⟨point, mem_cons_self, entry⟩
      | cons other before =>
        obtain ⟨-, tail⟩ := List.cons.inj queue'
        obtain ⟨slot, rfl⟩ := exists_slot class_
        rw [length_cons] at short
        have budget' : 6 * (ahead - 1) + 6 ≤ budget := by omega
        have fits : 6 * (ahead - 1) + 6 ≤ points.length := by omega
        refine later budget' (ih ⟨before, behind, ?_, by omega⟩
          (Rotation.within_cycle slot _) (Nat.le_refl 6) fits)
        rw [queues, own, update_self]
        exact tail.symm
    · rcases fate with same | ⟨e, less, nearer⟩
      · exact absurd same own
      · have budget' : 6 * ahead + e ≤ budget := by omega
        refine later budget' (ih ⟨before, behind, ?_, short⟩ nearer (by omega) (by omega))
        rw [queues, update_of_ne fun same => own same.symm, queue]

end Path

/-- A process at position `k` of a queue that is neither removed nor reclassified is among the
next `6 * (k + 1)` dequeues. While no queue is empty, six dequeues serve the three classes
3, 2 and 1 times. -/
theorem bounded_bypass (config : VmSchedulerConfig) (owner : UInt64) (processes : VmProcessTable)
    (history continuation : List Request) :
    let s := (replay call (start config owner processes) history).1
    (∀ pid class_ k, (s.scheduler.queues class_)[k]? = some pid →
        (∀ request ∈ continuation, Spares (· = pid) request) →
        6 * (k + 1) ≤ (dequeues s continuation).length →
        ∃ point ∈ (dequeues s continuation).take (6 * (k + 1)),
          point.dequeuedPid = some pid) ∧
      ∀ window, window <:+: dequeues s continuation → window.length = 6 →
        (∀ point ∈ window, ∀ class_, point.queues class_ ≠ []) →
        (window.map servedClass).count (some .priority) = 3 ∧
          (window.map servedClass).count (some .normal) = 2 ∧
          (window.map servedClass).count (some .background) = 1 := by
  intro s
  constructor
  · intro pid class_ k place safe enough
    obtain ⟨slot, rfl⟩ := exists_slot class_
    obtain ⟨inside, at_⟩ := List.getElem?_eq_some_iff.mp place
    have waits : Waits pid (vmSchedulerClassCycle slot) k s.scheduler := by
      refine ⟨(s.scheduler.queues (vmSchedulerClassCycle slot)).take k,
        (s.scheduler.queues (vmSchedulerClassCycle slot)).drop (k + 1), ?_,
        length_take_le _ _⟩
      rw [← at_, ← drop_eq_getElem_cons inside, take_append_drop]
    exact (replay_path s safe).dequeued_of_waits rfl waits (Rotation.within_cycle slot _)
      (Nat.le_refl 6) enough
  · intro window part six full
    have path : Path (fun _ => False) s.scheduler (dequeues s continuation) _ :=
      replay_path s fun request _ => by cases request <;> first | trivial | exact id
    have count : ∀ class_, (window.map servedClass).count (some class_) =
        (List.ofFn vmSchedulerClassCycle).count class_ := by
      intro class_
      have busy : ∀ turn ∈ window.map turnOf, ∀ c, turn.1 c = true := by
        intro turn mem c
        obtain ⟨point, listed, rfl⟩ := mem_map.mp mem
        have some_ := full point listed c
        simpa [turnOf, busy] using some_
      have counted := Rotation.count_of_all_busy path.turns (part.map turnOf)
        (by rw [length_map, six]) busy class_
      rw [map_map] at counted
      exact counted
    exact ⟨count .priority, count .normal, count .background⟩

end Terlan.Scheduler
