/-
  Runs of the supervision system: calls of its methods, in any order, with any change of the
  process table between them.

  * `records_truthful`: in every run in which a group that has reached a restart limit is
    restarted for the very child that reached it, each history entry and each failure names the
    process that its child had at the moment it was written.
-/
import Mathlib.Logic.Relation
import Mathlib.Data.List.Infix
import Terlan.Supervision.Records

namespace Terlan.Supervision

open Terlan.Lib Terlan.ActorDirectory Terlan.Process Supervised List
open Std (ExtTreeMap)
open Relation (ReflTransGen)

/-! ## Calls -/

inductive Request where
  | createSupervisor (name : String) (policy : VmRestartPolicy)
  | createChildSupervisor (parentId : VmSupervisorId) (name : String) (policy : VmRestartPolicy)
  | startChild (supervisorId : VmSupervisorId) (spec : VmChildSpec)
  | restartChild (supervisorId : VmSupervisorId) (childId : String) (reason : VmExitReason)
  | restartChildAfterBackoff (supervisorId : VmSupervisorId) (childId : String)
      (reason : VmExitReason)
  | restartFailedSupervisor (depth : Nat) (failedId : VmSupervisorId) (reason : VmExitReason)
  | elsewhere (processes : VmProcessTable)

/-- The state after a method, and how it ended. -/
def ended {α : Type} (m : SupervisedM α) (s : Supervised) :
    Supervised × Except (Fault String) Unit := ((m.call s).1, (m.call s).2.map fun _ => ())

def call (s : Supervised) : Request → Supervised × Except (Fault String) Unit
  | .createSupervisor name policy =>
    ({ s with system := (s.system.createSupervisorWithPolicy name policy).1 }, .ok ())
  | .createChildSupervisor parentId name policy =>
    let created := s.system.createChildSupervisorWithPolicy parentId name policy
    ({ s with system := created.1 }, (created.2.mapError Fault.returned).map fun _ => ())
  | .startChild supervisorId spec => ended (startChild supervisorId spec) s
  | .restartChild supervisorId childId reason => ended (restartChild supervisorId childId reason) s
  | .restartChildAfterBackoff supervisorId childId reason =>
    ended (restartChildAfterBackoff supervisorId childId reason) s
  | .restartFailedSupervisor depth failedId reason =>
    ended (restartFailedSupervisor depth failedId reason) s
  | .elsewhere processes => ({ s with processes }, .ok ())

/-- The state after a run from the empty system. -/
def after (processes : VmProcessTable) (requests : List Request) : Supervised :=
  (replay call ⟨.new, processes⟩ requests).1

/-! ## One supervisor in the system -/

namespace Supervised

def pidOf (s : Supervised) (id : VmSupervisorId) (childId : String) : Option VmProcessId :=
  s.system.supervisors[id]?.bind (·.pidOf childId)

/-- An entry of a supervisor's restart history, by its position. -/
def entry (s : Supervised) (id : VmSupervisorId) (i : Nat) :
    Option VmSupervisorRestartHistoryEntry :=
  s.system.supervisors[id]?.bind (·.restartHistory[i]?)

def stateOf (s : Supervised) (id : VmSupervisorId) : Option VmSupervisorState :=
  s.system.supervisors[id]?.map (·.state)

end Supervised

section Change

variable {α : Type} {s s' : Supervised} {id : VmSupervisorId} {supervisor : VmSupervisor}

variable {m : SupervisorM α}

theorem call_atSupervisor_missing (absent : s.system.supervisors[id]? = none) :
    (atSupervisor id m).call s =
      (s, .error (.returned (VmSupervisionSystem.missingSupervisor id))) := by
  unfold atSupervisor
  rw [call_get_bind, absent]
  rfl

theorem call_atSupervisor (found : s.system.supervisors[id]? = some supervisor) :
    (atSupervisor id m).call s =
      (⟨{ s.system with
          supervisors := s.system.supervisors.insert id
            (m.call ⟨supervisor, s.processes⟩).1.supervisor },
          (m.call ⟨supervisor, s.processes⟩).1.processes⟩,
        (m.call ⟨supervisor, s.processes⟩).2) := by
  unfold atSupervisor
  rw [call_get_bind, found]
  rfl

/-- A change of the system is a change of each of its supervisors, or new ones. -/
def Each (R : VmSupervisor → VmSupervisor → Prop) (fresh : VmSupervisor → Prop)
    (s s' : Supervised) : Prop :=
  ∀ (id : VmSupervisorId) (supervisor' : VmSupervisor),
    s'.system.supervisors[id]? = some supervisor' →
    (∃ supervisor, s.system.supervisors[id]? = some supervisor ∧ R supervisor supervisor') ∨
      fresh supervisor'

variable {R : VmSupervisor → VmSupervisor → Prop} {fresh : VmSupervisor → Prop}

theorem Each.refl (refl : ∀ supervisor, R supervisor supervisor) (s : Supervised) :
    Each R fresh s s := fun _ supervisor found => .inl ⟨supervisor, found, refl supervisor⟩

/-- One supervisor changes. -/
theorem each_insert (refl : ∀ supervisor, R supervisor supervisor) {supervisor' : VmSupervisor}
    (found : s.system.supervisors[id]? = some supervisor) (change : R supervisor supervisor')
    (processes : VmProcessTable) : Each R fresh s
      ⟨{ s.system with supervisors := s.system.supervisors.insert id supervisor' }, processes⟩ := by
  intro other changed found'
  dsimp only at found'
  rw [getElem?_insert_eq] at found'
  split at found'
  next eq =>
    cases eq
    cases found'
    exact .inl ⟨supervisor, found, change⟩
  next => exact .inl ⟨changed, found', refl changed⟩

/-- A method of one supervisor. -/
theorem each_atSupervisor (refl : ∀ supervisor, R supervisor supervisor)
    (change : ∀ supervisor, s.system.supervisors[id]? = some supervisor →
      R supervisor (m.call ⟨supervisor, s.processes⟩).1.supervisor) :
    Each R fresh s ((atSupervisor id m).call s).1 := by
  cases found : s.system.supervisors[id]? with
  | none =>
    rw [call_atSupervisor_missing found]
    exact .refl refl s
  | some supervisor =>
    rw [call_atSupervisor found]
    exact each_insert refl found (change supervisor found) _

end Change

/-! ## What a call does to a supervisor -/

/-- A supervisor keeps its place in the tree. -/
structure Same (before after : VmSupervisor) : Prop where
  id : after.id = before.id
  parentId : after.parentId = before.parentId
  ordered : Ordered before → Ordered after

theorem Same.refl (supervisor : VmSupervisor) : Same supervisor supervisor := ⟨rfl, rfl, fun h => h⟩

theorem Same.trans {a b c : VmSupervisor} (h : Same a b) (h' : Same b c) : Same a c :=
  ⟨h'.id.trans h.id, h'.parentId.trans h.parentId, fun ordered => h'.ordered (h.ordered ordered)⟩

theorem Kept.same {before after : VmSupervisor} (h : Kept before after) : Same before after :=
  ⟨h.id, h.parentId, h.ordered⟩

/-- What one call may do to a supervisor: the new entries are true, and so is a new failure. -/
structure Step (before after : VmSupervisor) : Prop extends Same before after where
  history : ∃ entries, after.restartHistory = before.restartHistory ++ entries ∧
    ∀ entry ∈ entries, NamesEntry before after entry
  failure : ∀ childId pid reason, after.state = .failed childId pid reason →
    before.state = .failed childId pid reason ∨ before.pidOf childId = some pid

theorem Writes.step {before after : VmSupervisor} (h : Writes before after) : Step before after :=
  ⟨h.toKept.same, h.history, h.failure⟩

theorem Step.refl (supervisor : VmSupervisor) : Step supervisor supervisor :=
  (Quiet.refl supervisor).writes.step

/-- A new state that is no failure of a child. -/
theorem Step.withState {before after : VmSupervisor} (h : Step before after)
    {state : VmSupervisorState} (other : ∀ childId pid reason, state ≠ .failed childId pid reason) :
    Step before { after with state } :=
  ⟨⟨h.id, h.parentId, fun ordered => ⟨(h.ordered ordered).distinct, (h.ordered ordered).listed⟩⟩,
    h.history,
    fun childId pid reason failed => absurd failed (other childId pid reason)⟩

theorem step_startChildUnder (spec : VmChildSpec) (cell : SupervisorCell) :
    Step cell.supervisor ((startChildUnder spec).call cell).1.supervisor := by
  unfold startChildUnder
  rw [call_get_bind, call_check_bind]
  by_cases exists_ : spec.id ∈ cell.supervisor.children
  · rw [failIf, if_pos exists_]
    exact .refl _
  rw [failIf, if_neg exists_]
  dsimp only
  rw [call_bind, call_within]
  rcases (VmProcessTable.spawnRoot spec.source).call cell.processes with ⟨table, e | pid⟩
  · exact .refl _
  refine ⟨⟨rfl, rfl, fun ordered => ⟨?_, fun childId => ?_⟩⟩,
    ⟨[], (append_nil _).symm, fun _ member => by cases member⟩,
    fun _ _ _ failed => .inl failed⟩
  · refine nodup_append.mpr ⟨ordered.distinct, pairwise_singleton _ _, ?_⟩
    intro childId listed _ same eq
    cases mem_singleton.mp same
    exact exists_ (eq ▸ (ordered.listed childId).mp listed)
  · show childId ∈ cell.supervisor.childOrder ++ [spec.id] ↔
      childId ∈ cell.supervisor.children.insert spec.id ⟨spec, pid, 0, 0, none⟩
    rw [mem_append, mem_singleton, Lib.mem_insert_iff, ordered.listed childId, or_comm,
      eq_comm]

/-! ## Records -/

/-- What a supervisor keeps: an entry at a position of its history, or the failure of a child. -/
inductive Record where
  | entry (position : Nat) (written : VmSupervisorRestartHistoryEntry)
  | failure (childId : String) (pid : VmProcessId) (reason : VmExitReason)

def Supervised.Holds (s : Supervised) (id : VmSupervisorId) : Record → Prop
  | .entry position written => s.entry id position = some written
  | .failure childId pid reason => s.stateOf id = some (.failed childId pid reason)

/-- The record names the process that its child has before the moment it is written, and the
new one names the process that the child has after it. -/
def Record.Truthful (u u' : Supervised) (id : VmSupervisorId) : Record → Prop
  | .entry _ written =>
    u.pidOf id written.childId = some written.oldPid ∧
      ∀ pid, written.newPid = some pid → u'.pidOf id written.childId = some pid
  | .failure childId pid _ => u.pidOf id childId = some pid

/-- One supervisor is rebuilt. -/
def Rebuilt (reason : VmExitReason) (u u' : Supervised) : Prop :=
  ∃ id, u' = ((atSupervisor id (SupervisorCell.rebuild reason)).call u).1

abbrev Rebuilds (reason : VmExitReason) : Supervised → Supervised → Prop :=
  ReflTransGen (Rebuilt reason)

/-- At the end the parent is set running, if nothing has failed. -/
def Closes (last s' : Supervised) : Prop :=
  s' = last ∨ ∃ parentId, s' = setState parentId .running last

/-- The restart of a failed supervisor is a sequence of moments, one for each supervisor that
it rebuilds; every other call is one moment. -/
def Moment (before : Supervised) : Request → Supervised → Supervised → Prop
  | .restartFailedSupervisor depth failedId reason, u, u' =>
    Rebuilds reason before u ∧ Rebuilt reason u u' ∧ ∃ last, Rebuilds reason u' last ∧
      Closes last (call before (.restartFailedSupervisor depth failedId reason)).1
  | request, u, u' => u = before ∧ u' = (call before request).1

/-- Each record of the last state was written at a moment of the run, and was true then. -/
def RecordsTruthful (processes : VmProcessTable) (requests : List Request) : Prop :=
  ∀ id record, (after processes requests).Holds id record →
    ∃ earlier request later u u', requests = earlier ++ request :: later ∧
      Moment (after processes earlier) request u u' ∧ ¬ u.Holds id record ∧ u'.Holds id record ∧
      record.Truthful u u' id

/-- A restart under a group policy is for the child that has used up its restarts, if any has. -/
def Request.LimitAtTrigger (s : Supervised) : Request → Prop
  | .restartChild supervisorId childId reason =>
    ∀ supervisor, s.system.supervisors[supervisorId]? = some supervisor →
      Supervision.LimitAtTrigger supervisor childId reason
  | _ => True

/-! ## Moments -/

def AllOrdered (s : Supervised) : Prop :=
  ∀ (id : VmSupervisorId) (supervisor : VmSupervisor),
    s.system.supervisors[id]? = some supervisor → Ordered supervisor

/-- A supervisor that has just been created. -/
structure Fresh (supervisor : VmSupervisor) : Prop where
  children : supervisor.children = ∅
  state : ∀ childId pid reason, supervisor.state ≠ .failed childId pid reason
  childOrder : supervisor.childOrder = []
  restartHistory : supervisor.restartHistory = []

theorem new_none (id : VmSupervisorId) : VmSupervisionSystem.new.supervisors[id]? = none :=
  ExtTreeMap.getElem?_empty

theorem allOrdered_new (processes : VmProcessTable) : AllOrdered ⟨.new, processes⟩ := by
  intro id supervisor found
  rw [new_none id] at found
  cases found

abbrev Changes : Supervised → Supervised → Prop := Each Step Fresh

variable {s s' : Supervised} {reason : VmExitReason}

variable {supervisor : VmSupervisor}

theorem Fresh.ordered (h : Fresh supervisor) : Ordered supervisor :=
  ⟨h.childOrder ▸ .nil, fun childId => by
    rw [h.childOrder, h.children]
    exact iff_of_false not_mem_nil ExtTreeMap.not_mem_empty⟩

theorem Changes.refl (s : Supervised) : Changes s s := Each.refl .refl s

theorem Changes.allOrdered (h : Changes s s') (ordered : AllOrdered s) : AllOrdered s' := by
  intro id supervisor' found'
  rcases h id supervisor' found' with ⟨supervisor, found, step⟩ | fresh
  · exact step.ordered (ordered id supervisor found)
  · exact fresh.ordered

variable {id : VmSupervisorId}

section

variable (found : s.system.supervisors[id]? = some supervisor)
include found

theorem pidOf_found (childId : String) :
    s.pidOf id childId = supervisor.pidOf childId := by
  rw [Supervised.pidOf, found]
  rfl

theorem holds_entry {i : Nat} {written : VmSupervisorRestartHistoryEntry} :
    s.Holds id (.entry i written) ↔ supervisor.restartHistory[i]? = some written := by
  unfold Supervised.Holds Supervised.entry
  rw [found]
  rfl

theorem holds_failure {childId : String} {pid : VmProcessId} {reason : VmExitReason} :
    s.Holds id (.failure childId pid reason) ↔ supervisor.state = .failed childId pid reason := by
  unfold Supervised.Holds Supervised.stateOf
  rw [found]
  exact Option.some_inj

end

variable {record : Record}

/-- A record that holds of a supervisor has a supervisor that it holds of. -/
theorem Supervised.Holds.found (h : s.Holds id record) :
    ∃ supervisor, s.system.supervisors[id]? = some supervisor := by
  cases record with
  | entry position written => exact (Option.bind_eq_some_iff.mp h).imp fun _ => And.left
  | failure childId pid reason => exact (Option.map_eq_some_iff.mp h).imp fun _ => And.left

/-- What one change writes is true at that moment. -/
theorem Changes.truthful (h : Changes s s')
    (holds : s'.Holds id record) : s.Holds id record ∨ record.Truthful s s' id := by
  obtain ⟨supervisor', found'⟩ := holds.found
  rcases h id supervisor' found' with ⟨supervisor, found, step⟩ | fresh
  · cases record with
    | entry position written =>
      obtain ⟨entries, appended, names⟩ := step.history
      rw [holds_entry found', appended] at holds
      rw [holds_entry found]
      by_cases old : position < supervisor.restartHistory.length
      · rw [getElem?_append_left old] at holds
        exact .inl holds
      rw [getElem?_append_right (Nat.le_of_not_lt old)] at holds
      obtain ⟨before, after⟩ := names written (mem_of_getElem? holds)
      exact .inr ⟨(pidOf_found found _).trans before,
        fun pid eq => (pidOf_found found' _).trans (after pid eq)⟩
    | failure childId pid reason =>
      rw [holds_failure found'] at holds
      rw [holds_failure found]
      exact (step.failure childId pid reason holds).imp_right (pidOf_found found childId).trans
  · cases record with
    | entry position written =>
      rw [holds_entry found', fresh.restartHistory] at holds
      cases holds
    | failure childId pid reason =>
      exact absurd ((holds_failure found').mp holds) (fresh.state childId pid reason)

theorem changes_insertSupervisor (parentId : Option VmSupervisorId) (name : String)
    (policy : VmRestartPolicy) :
    Changes s { s with system := (s.system.insertSupervisor parentId name policy).1 } := by
  intro id supervisor' found'
  unfold VmSupervisionSystem.insertSupervisor at found'
  dsimp only at found'
  rw [getElem?_insert_eq] at found'
  split at found'
  next =>
    cases found'
    exact .inr ⟨rfl, fun _ _ _ => VmSupervisorState.noConfusion, rfl, rfl⟩
  next => exact .inl ⟨supervisor', found', .refl supervisor'⟩

/-- A state that is no failure of a child, set after the change. -/
theorem Changes.setState (h : Changes s s') {state : VmSupervisorState}
    (other : ∀ childId pid reason, state ≠ .failed childId pid reason) :
    Changes s (setState id state s') := by
  unfold Supervised.setState
  cases found : s'.system.supervisors[id]? with
  | none => exact h
  | some changed =>
    intro id' supervisor' found'
    dsimp only at found'
    rw [getElem?_insert_eq] at found'
    split at found'
    next eq =>
      cases eq
      cases found'
      rcases h id changed found with ⟨supervisor, found, step⟩ | fresh
      · exact .inl ⟨supervisor, found, step.withState other⟩
      · exact .inr ⟨fresh.children, other, fresh.childOrder, fresh.restartHistory⟩
    next => exact h id' supervisor' found'

theorem Rebuilt.changes (ordered : AllOrdered s) (h : Rebuilt reason s s') : Changes s s' := by
  obtain ⟨id, rfl⟩ := h
  exact each_atSupervisor .refl fun supervisor found =>
    (@rebuild_writes ⟨supervisor, s.processes⟩ reason (ordered id supervisor found).distinct).step

theorem rebuilds_allOrdered (ordered : AllOrdered s) (h : Rebuilds reason s s') :
    AllOrdered s' := by
  induction h with
  | refl => exact ordered
  | tail _ last ih => exact (last.changes ih).allOrdered ih

/-- What a sequence of rebuilds writes is true at one of them. -/
theorem rebuilds_truthful (ordered : AllOrdered s) (h : Rebuilds reason s s')
    (holds : s'.Holds id record) :
    s.Holds id record ∨ ∃ u u', Rebuilds reason s u ∧ Rebuilt reason u u' ∧ Rebuilds reason u' s' ∧
      ¬ u.Holds id record ∧ u'.Holds id record ∧ record.Truthful u u' id := by
  induction h with
  | refl => exact .inl holds
  | tail path last ih =>
    rename_i u u'
    by_cases old : u.Holds id record
    · refine (ih old).imp_right ?_
      rintro ⟨v, v', first, moment, rest, written⟩
      exact ⟨v, v', first, moment, rest.tail last, written⟩
    · have changes := last.changes (rebuilds_allOrdered ordered path)
      exact .inr ⟨u, u', path, last, .refl, old, holds,
        (changes.truthful holds).resolve_left old⟩

/-! ## The restart of a failed supervisor -/

theorem restartEach_rebuilds {restart : VmSupervisorId → SupervisedM Unit}
    (each : ∀ id s, Rebuilds reason s ((restart id).call s).1) (ids : List VmSupervisorId)
    (s : Supervised) : Rebuilds reason s ((restartEach restart ids).call s).1 := by
  induction ids generalizing s with
  | nil => exact .refl
  | cons id rest ih =>
    unfold restartEach
    rw [call_bind]
    have first := each id s
    revert first
    rcases (restart id).call s with ⟨s', e | _⟩
    · exact fun first => first
    · exact fun first => first.trans (ih s')

theorem restartSupervisorSubtree_rebuilds (depth : Nat) (id : VmSupervisorId) (s : Supervised) :
    Rebuilds reason s ((restartSupervisorSubtree reason depth id).call s).1 := by
  induction depth generalizing id s with
  | zero => exact .refl
  | succ depth ih =>
    unfold restartSupervisorSubtree
    rw [call_get_bind, call_bind]
    have first : Rebuilt reason s ((atSupervisor id (SupervisorCell.rebuild reason)).call s).1 :=
      ⟨id, rfl⟩
    revert first
    rcases (atSupervisor id (SupervisorCell.rebuild reason)).call s with ⟨s', e | _⟩
    · exact fun first => .single first
    · exact fun first => .head first (restartEach_rebuilds ih _ s')

theorem restartFailedSupervisor_rebuilds (depth : Nat) (failedId : VmSupervisorId) :
    ∃ last, Rebuilds reason s last ∧
      Closes last ((restartFailedSupervisor depth failedId reason).call s).1 := by
  unfold restartFailedSupervisor
  rw [call_get_bind, call_check_bind]
  rcases restartScope s.system failedId with e | ⟨parentId, selected⟩
  · exact ⟨s, .refl, .inl rfl⟩
  dsimp only
  rw [call_bind]
  have path := restartEach_rebuilds
    (@restartSupervisorSubtree_rebuilds reason depth) selected s
  revert path
  rcases (restartEach (restartSupervisorSubtree reason depth) selected).call s with
    ⟨last, e | _⟩
  · exact fun path => ⟨last, path, .inl rfl⟩
  · exact fun path => ⟨last, path, .inr ⟨parentId, rfl⟩⟩

/-! ## Calls and runs -/

theorem changes_restartChild {supervisorId : VmSupervisorId} {childId : String}
    (ordered : AllOrdered s)
    (trigger : Request.LimitAtTrigger s (.restartChild supervisorId childId reason)) :
    Changes s ((restartChild supervisorId childId reason).call s).1 := by
  have changes : Changes s
      ((atSupervisor supervisorId (SupervisorCell.restartChild childId reason)).call s).1 :=
    each_atSupervisor .refl fun supervisor found =>
      ((@restartChild_writes ⟨supervisor, s.processes⟩ reason childId
        (ordered supervisorId supervisor found).distinct).2 (trigger supervisor found)).step
  unfold restartChild
  rw [call_bind]
  revert changes
  rcases (atSupervisor supervisorId (SupervisorCell.restartChild childId reason)).call s with
    ⟨s', e | ⟨restart, _ | parentId⟩⟩
  · exact fun changes => changes
  · exact fun changes => changes
  · exact fun changes => changes.setState fun _ _ _ failed => by cases failed

theorem Closes.changes {last : Supervised} (h : Closes last s') : Changes last s' := by
  rcases h with rfl | ⟨parentId, rfl⟩
  · exact .refl _
  · exact (Changes.refl last).setState fun _ _ _ failed => by cases failed

/-- The end of the restart of a failed supervisor writes no record. -/
theorem Closes.holds {last : Supervised} (h : Closes last s')
    (holds : s'.Holds id record) : last.Holds id record := by
  rcases h with rfl | ⟨parentId, rfl⟩
  · exact holds
  unfold Supervised.setState at holds
  cases found : last.system.supervisors[parentId]? with
  | none =>
    rw [found] at holds
    exact holds
  | some parent =>
    rw [found] at holds
    cases record with
    | entry position written =>
      unfold Supervised.Holds Supervised.entry at holds ⊢
      dsimp only at holds
      rw [getElem?_insert_eq] at holds
      split at holds
      next eq => rwa [← eq, found]
      next => exact holds
    | failure childId pid reason =>
      unfold Supervised.Holds Supervised.stateOf at holds ⊢
      dsimp only at holds
      rw [getElem?_insert_eq] at holds
      split at holds
      next => cases holds
      next => exact holds

variable {request : Request}

/-- A call other than the restart of a failed supervisor is one change. -/
theorem changes_call (ordered : AllOrdered s) (trigger : request.LimitAtTrigger s)
    (one : ∀ depth failedId reason, request ≠ .restartFailedSupervisor depth failedId reason) :
    Changes s (call s request).1 := by
  cases request with
  | createSupervisor name policy => exact changes_insertSupervisor none name policy
  | createChildSupervisor parentId name policy =>
    show Changes s
      { s with system := (s.system.createChildSupervisorWithPolicy parentId name policy).1 }
    unfold VmSupervisionSystem.createChildSupervisorWithPolicy
    split
    next => exact changes_insertSupervisor (some parentId) name policy
    next => exact .refl s
  | startChild supervisorId spec =>
    exact each_atSupervisor .refl fun supervisor _ => step_startChildUnder spec ⟨supervisor, _⟩
  | restartChild supervisorId childId reason => exact changes_restartChild ordered trigger
  | restartChildAfterBackoff supervisorId childId reason =>
    exact each_atSupervisor .refl fun supervisor _ =>
      (@restartAfterBackoff_writes ⟨supervisor, s.processes⟩ reason childId).step
  | restartFailedSupervisor depth failedId reason => exact absurd rfl (one depth failedId reason)
  | elsewhere processes => exact fun _ supervisor found => .inl ⟨supervisor, found, .refl _⟩

theorem call_allOrdered (ordered : AllOrdered s)
    (trigger : request.LimitAtTrigger s) : AllOrdered (call s request).1 := by
  by_cases one : ∀ depth failedId reason, request ≠ .restartFailedSupervisor depth failedId reason
  · exact (changes_call ordered trigger one).allOrdered ordered
  obtain ⟨depth, failedId, reason, rfl⟩ :
      ∃ depth failedId reason, request = .restartFailedSupervisor depth failedId reason := by
    simpa only [ne_eq, not_forall, not_not] using one
  obtain ⟨last, path, closes⟩ := @restartFailedSupervisor_rebuilds s reason depth failedId
  exact closes.changes.allOrdered (rebuilds_allOrdered ordered path)

/-- What a call writes is true at one of its moments. -/
theorem call_truthful (ordered : AllOrdered s) (trigger : request.LimitAtTrigger s)
    (holds : (call s request).1.Holds id record) :
    s.Holds id record ∨ ∃ u u', Moment s request u u' ∧ ¬ u.Holds id record ∧
      u'.Holds id record ∧ record.Truthful u u' id := by
  by_cases one : ∀ depth failedId reason, request ≠ .restartFailedSupervisor depth failedId reason
  · by_cases old : s.Holds id record
    · exact .inl old
    · have moment : Moment s request s (call s request).1 := by
        cases request with
        | restartFailedSupervisor depth failedId reason => exact absurd rfl (one _ _ _)
        | createSupervisor | createChildSupervisor | startChild | restartChild
        | restartChildAfterBackoff | elsewhere => exact ⟨rfl, rfl⟩
      exact .inr ⟨s, _, moment, old, holds,
        ((changes_call ordered trigger one).truthful holds).resolve_left old⟩
  · obtain ⟨depth, failedId, reason, rfl⟩ :
        ∃ depth failedId reason, request = .restartFailedSupervisor depth failedId reason := by
      simpa only [ne_eq, not_forall, not_not] using one
    obtain ⟨last, path, closes⟩ := @restartFailedSupervisor_rebuilds s reason depth failedId
    refine (rebuilds_truthful ordered path (closes.holds holds)).imp_right ?_
    rintro ⟨u, u', first, moment, rest, written⟩
    exact ⟨u, u', ⟨first, moment, last, rest, closes⟩, written⟩

theorem after_allOrdered {processes : VmProcessTable} {requests : List Request}
    (trigger : Guarded call (fun s request => request.LimitAtTrigger s) ⟨.new, processes⟩
      requests) : AllOrdered (after processes requests) :=
  replay_invariant_of call (fun s request => request.LimitAtTrigger s) (fun s _ => AllOrdered s)
    (fun _ _ _ trigger ordered => call_allOrdered ordered trigger) ⟨.new, processes⟩ [] requests
    (allOrdered_new processes) trigger

theorem records_truthful (processes : VmProcessTable) (requests : List Request)
    (trigger : Guarded call (fun s request => request.LimitAtTrigger s) ⟨.new, processes⟩
      requests) : RecordsTruthful processes requests := by
  induction requests using List.reverseRecOn with
  | nil =>
    intro id record holds
    obtain ⟨supervisor, found⟩ := holds.found
    rw [show (after processes []).system.supervisors[id]? = none from new_none id] at found
    cases found
  | append_singleton requests request ih =>
    obtain ⟨before, now, _⟩ := (guarded_append call _ _ _ _).mp trigger
    intro id record holds
    have last : after processes (requests ++ [request]) =
        (call (after processes requests) request).1 := replay_append_fst call _ _ _
    rw [last] at holds
    rcases call_truthful (after_allOrdered before) now holds with old | ⟨u, u', moment, written⟩
    · obtain ⟨earlier, other, later, u, u', rfl, moment, written⟩ := ih before id record old
      exact ⟨earlier, other, later ++ [request], u, u', by simp, moment, written⟩
    · exact ⟨requests, request, [], u, u', rfl, moment, written⟩

def memberSpec (id : String) (restartLimit : UInt32) : VmChildSpec :=
  ⟨id, ⟨"Main", "start", 0, none⟩, restartLimit, .permanent, none, none⟩

/-- A group in which the second child has no restarts. -/
def limitedGroup : List Request :=
  [.createSupervisor "group" .oneForAll, .startChild ⟨1⟩ (memberSpec "a" 1),
    .startChild ⟨1⟩ (memberSpec "b" 0)]

theorem records_truthful_limit :
    RecordsTruthful .new (limitedGroup ++ [.restartChild ⟨1⟩ "b" .normal]) := by
  refine records_truthful .new _ ⟨trivial, trivial, trivial, ?_, trivial⟩
  intro supervisor found _ first searched
  have limited : (after .new limitedGroup).system.supervisors[(⟨1⟩ : VmSupervisorId)]?.map
      (fun s => (selectedChildren s "b").find? (exhausted s .normal)) = some (some "b") := by
    decide +kernel
  rw [show (after .new limitedGroup).system.supervisors[(⟨1⟩ : VmSupervisorId)]? = _ from found,
    Option.map_some, searched] at limited
  exact Option.some.inj (Option.some.inj limited)

/-- The restart of the first child is recorded with the process of the second. -/
theorem records_truthful_fails : ¬ ∀ processes requests, RecordsTruthful processes requests := by
  intro every
  have recorded : ((after .new (limitedGroup ++ [.restartChild ⟨1⟩ "a" .normal])).entry ⟨1⟩
      0).map (fun entry => (entry.childId, entry.oldPid)) = some ("a", ⟨2⟩) := by decide +kernel
  obtain ⟨entry, holds, names⟩ := Option.map_eq_some_iff.mp recorded
  obtain ⟨earlier, request, later, u, u', split, moment, _, _, truthful⟩ :=
    every .new _ ⟨1⟩ (.entry 0 entry) holds
  obtain ⟨childId, oldPid⟩ := Prod.mk.inj names
  have never : ∀ front ∈ (limitedGroup ++ [Request.restartChild ⟨1⟩ "a" .normal]).inits,
      (after .new front).pidOf ⟨1⟩ "a" ≠ some ⟨2⟩ := by decide +kernel
  have one : u = after .new earlier := by
    have member : request ∈ limitedGroup ++ [Request.restartChild ⟨1⟩ "a" .normal] :=
      split ▸ mem_append_right _ mem_cons_self
    cases request with
    | restartFailedSupervisor depth failedId reason =>
      simp [limitedGroup] at member
    | _ => exact moment.1
  refine never earlier ((mem_inits _ _).mpr ⟨request :: later, split.symm⟩) ?_
  rw [← one, ← childId, ← oldPid]
  exact truthful.1

end Terlan.Supervision
