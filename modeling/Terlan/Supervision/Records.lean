/-
  Restart records: which process each history entry and each failure names.

  * `records_truthful`: in every run in which a group that has reached a restart limit is
    restarted for the very child that reached it, each record names the process that its child
    had when it was written.
-/
import Terlan.Supervision.System

namespace Terlan.Supervision

open Terlan.Lib Terlan.ActorDirectory Terlan.Process List
open Std (ExtTreeMap)

/-! ## One child -/

section Child

open ChildCell

variable {α : Type} {cell : ChildCell} {reason : VmExitReason}

/-- A method of one child reports the process that the child had, and the one it has. -/
def Reports (childId : String) (before after : VmSupervisorChild) :
    Except (Fault String) (Option VmSupervisionRestartEvent) → Prop
  | .error _ => after.pid = before.pid
  | .ok none => after.pid = before.pid
  | .ok (some event) =>
    event.childId = childId ∧ event.oldPid = before.pid ∧ after.pid = event.newPid

/-- The same of the restart of a single child. -/
def ReportsOne (before after : VmSupervisorChild) :
    Except (Fault String) VmSupervisionRestart → Prop
  | .error _ => after.pid = before.pid
  | .ok (.restarted oldPid newPid _ _ _) => oldPid = before.pid ∧ after.pid = newPid
  | .ok (.notRestarted pid _ _) => pid = before.pid ∧ after.pid = before.pid
  | .ok (.limitReached pid _) => pid = before.pid ∧ after.pid = before.pid
  | .ok (.restartedGroup _) => False

theorem call_onProcesses (m : Method (Fault String) VmProcessTable α) :
    (onProcesses m).call cell = ({ cell with processes := (m.call cell.processes).1 },
      (m.call cell.processes).2) := rfl

theorem call_modifyChild (f : VmSupervisorChild → VmSupervisorChild) :
    (modifyChild f).call cell = ({ cell with child := f cell.child }, .ok ()) := rfl

/-- A new process takes the place of the old one, or nothing happens to the child. -/
theorem call_respawn (cell : ChildCell) :
    (∃ table e, (respawn.call cell) = (⟨cell.child, table⟩, .error e)) ∨
      ∃ table pid, (respawn.call cell) = (⟨{ cell.child with pid }, table⟩, .ok pid) := by
  unfold respawn
  rw [call_get_bind, call_bind, call_onProcesses]
  rcases Method.call (VmProcessTable.spawnRoot cell.child.spec.source) cell.processes with
    ⟨table, e | pid⟩
  · exact .inl ⟨table, e, rfl⟩
  · exact .inr ⟨table, pid, rfl⟩

theorem restartMember_reports (childId : String) :
    let after := (restartMember reason childId).call cell
    after.1.child.spec = cell.child.spec ∧ Reports childId cell.child after.1.child after.2 := by
  unfold restartMember
  rw [call_get_bind, call_bind, call_onProcesses]
  rcases (exitUnlessExited cell.child.pid reason).call cell.processes with ⟨table, e | _⟩
  · exact ⟨rfl, rfl⟩
  dsimp only
  rw [call_bind, call_modifyChild]
  dsimp only
  rw [call_ite]
  split
  · exact ⟨rfl, rfl⟩
  rw [call_bind, call_modifyChild]
  dsimp only
  rw [call_bind]
  rcases call_respawn ⟨countRestart
    { cell.child with lastShutdownTimeoutMs := cell.child.spec.shutdownTimeout }, table⟩ with
    ⟨table', e, run⟩ | ⟨table', pid, run⟩
  · rw [run]
    exact ⟨rfl, rfl⟩
  · rw [run]
    exact ⟨rfl, rfl, rfl, rfl⟩

theorem rebuildMember_reports (childId : String) :
    let after := (rebuildMember reason childId).call cell
    after.1.child.spec = cell.child.spec ∧ Reports childId cell.child after.1.child after.2 := by
  unfold rebuildMember
  rw [call_get_bind, call_bind, call_onProcesses]
  rcases (exitUnlessExited cell.child.pid reason).call cell.processes with ⟨table, e | _⟩
  · exact ⟨rfl, rfl⟩
  dsimp only
  rw [call_bind]
  rcases call_respawn ⟨cell.child, table⟩ with ⟨table', e, run⟩ | ⟨table', pid, run⟩
  · rw [run]
    exact ⟨rfl, rfl⟩
  · rw [run]
    exact ⟨rfl, rfl, rfl, rfl⟩

theorem restartOneForOneChild_reports :
    let after := (restartOneForOneChild reason).call cell
    after.1.child.spec = cell.child.spec ∧ ReportsOne cell.child after.1.child after.2 := by
  unfold restartOneForOneChild
  rw [call_get_bind, call_bind, call_onProcesses]
  rcases (exitUnlessExited cell.child.pid reason).call cell.processes with ⟨table, e | _⟩
  · exact ⟨rfl, rfl⟩
  dsimp only
  rw [call_bind, call_modifyChild]
  dsimp only
  rw [call_ite]
  split
  · exact ⟨rfl, rfl, rfl⟩
  rw [call_ite]
  split
  · exact ⟨rfl, rfl, rfl⟩
  rw [call_bind, call_modifyChild]
  dsimp only
  rw [call_bind]
  rcases call_respawn ⟨countRestart
    { cell.child with lastShutdownTimeoutMs := cell.child.spec.shutdownTimeout }, table⟩ with
    ⟨table', e, run⟩ | ⟨table', pid, run⟩
  · rw [run]
    exact ⟨rfl, rfl⟩
  · rw [run]
    exact ⟨rfl, rfl, rfl⟩

end Child

/-! ## The children of a supervisor -/

def VmSupervisor.pidOf (supervisor : VmSupervisor) (childId : String) : Option VmProcessId :=
  supervisor.children[childId]?.map (·.pid)

/-- What no restart touches. -/
structure Kept (before after : VmSupervisor) : Prop where
  id : after.id = before.id
  parentId : after.parentId = before.parentId
  name : after.name = before.name
  policy : after.policy = before.policy
  childOrder : after.childOrder = before.childOrder
  spec : ∀ childId : String,
    after.children[childId]?.map (·.spec) = before.children[childId]?.map (·.spec)

theorem Kept.refl (supervisor : VmSupervisor) : Kept supervisor supervisor :=
  ⟨rfl, rfl, rfl, rfl, rfl, fun _ => rfl⟩

theorem Kept.trans {a b c : VmSupervisor} (h : Kept a b) (h' : Kept b c) : Kept a c :=
  ⟨h'.id.trans h.id, h'.parentId.trans h.parentId, h'.name.trans h.name, h'.policy.trans h.policy,
    h'.childOrder.trans h.childOrder, fun childId => (h'.spec childId).trans (h.spec childId)⟩

/-- Nothing is written but children. -/
structure Quiet (before after : VmSupervisor) : Prop extends Kept before after where
  state : after.state = before.state
  restartHistory : after.restartHistory = before.restartHistory

/-- Only these children change. -/
structure KeptBut (childIds : List String) (before after : VmSupervisor) : Prop extends
    Quiet before after where
  others : ∀ childId : String, childId ∉ childIds →
    after.children[childId]? = before.children[childId]?

theorem Quiet.refl (supervisor : VmSupervisor) : Quiet supervisor supervisor :=
  ⟨.refl supervisor, rfl, rfl⟩

theorem KeptBut.refl (childIds : List String) (supervisor : VmSupervisor) :
    KeptBut childIds supervisor supervisor := ⟨.refl supervisor, fun _ _ => rfl⟩

theorem KeptBut.cons {childId : String} {rest : List String} {a b c : VmSupervisor}
    (h : KeptBut [childId] a b) (h' : KeptBut rest b c) : KeptBut (childId :: rest) a c := by
  refine ⟨⟨h.toKept.trans h'.toKept, h'.state.trans h.state,
    h'.restartHistory.trans h.restartHistory⟩, fun other ne => ?_⟩
  rw [h'.others other fun member => ne (mem_cons_of_mem _ member),
    h.others other fun member => ne (mem_cons.mpr (.inl (mem_singleton.mp member)))]

variable {before after : VmSupervisor}

theorem KeptBut.pidOf {childIds : List String}
    (h : KeptBut childIds before after) {childId : String} (other : childId ∉ childIds) :
    after.pidOf childId = before.pidOf childId := by
  unfold VmSupervisor.pidOf
  rw [h.others childId other]

/-- A supervisor lists each of its children once. -/
structure Ordered (supervisor : VmSupervisor) : Prop where
  distinct : supervisor.childOrder.Nodup
  listed : ∀ childId, childId ∈ supervisor.childOrder ↔ childId ∈ supervisor.children

theorem Kept.mem (h : Kept before after) (childId : String) :
    childId ∈ after.children ↔ childId ∈ before.children := by
  have spec := congrArg Option.isSome (h.spec childId)
  rw [Option.isSome_map, Option.isSome_map] at spec
  rw [ExtTreeMap.mem_iff_isSome_getElem?, ExtTreeMap.mem_iff_isSome_getElem?, spec]

theorem Kept.ordered (h : Kept before after) (ordered : Ordered before) : Ordered after := by
  refine ⟨h.childOrder ▸ ordered.distinct, fun childId => ?_⟩
  rw [h.childOrder, h.mem childId]
  exact ordered.listed childId

section Children

open SupervisorCell

variable {α : Type} {cell : SupervisorCell} {reason : VmExitReason}

variable {missing : Fault String}

theorem call_atChild_missing {childId : String} {m : ChildM α}
    (absent : cell.supervisor.children[childId]? = none) :
    (atChild missing childId m).call cell = (cell, .error missing) := by
  unfold atChild
  rw [call_get_bind, absent]
  rfl

variable {child : VmSupervisorChild}

theorem call_atChild {childId : String} {m : ChildM α}
    (found : cell.supervisor.children[childId]? = some child) :
    (atChild missing childId m).call cell =
      (⟨{ cell.supervisor with
          children := cell.supervisor.children.insert childId
            (m.call ⟨child, cell.processes⟩).1.child }, (m.call ⟨child, cell.processes⟩).1.processes⟩,
        (m.call ⟨child, cell.processes⟩).2) := by
  unfold atChild
  rw [call_get_bind, found]
  rfl

variable {supervisor : VmSupervisor}

/-- One child changes and keeps its specification. -/
theorem keptBut_insert {childId : String}
    {child child' : VmSupervisorChild} (found : supervisor.children[childId]? = some child)
    (spec : child'.spec = child.spec) : KeptBut [childId] supervisor
      { supervisor with children := supervisor.children.insert childId child' } := by
  refine ⟨⟨⟨rfl, rfl, rfl, rfl, rfl, fun other => ?_⟩, rfl, rfl⟩, fun other ne => ?_⟩
  · dsimp only
    rw [getElem?_insert_eq]
    split
    next eq => rw [← eq, found, Option.map_some, Option.map_some, spec]
    next => rfl
  · exact getElem?_insert_of_ne _ _ fun eq => ne (mem_singleton.mpr eq.symm)

theorem pidOf_insert {childId : String} :
    ({ supervisor with children := supervisor.children.insert childId child } :
      VmSupervisor).pidOf childId = some child.pid := by
  unfold VmSupervisor.pidOf
  dsimp only
  rw [getElem?_insert_self_eq]
  rfl

/-- An event names the process that its child had, and the one it has. -/
def Names (before after : VmSupervisor) (event : VmSupervisionRestartEvent) : Prop :=
  before.pidOf event.childId = some event.oldPid ∧ after.pidOf event.childId = some event.newPid

variable {childIds : List String}

/-- A loop over different children whose turns report the truth. -/
theorem eachChild_names {m : String → ChildM (Option VmSupervisionRestartEvent)}
    (reports : ∀ childId (cell : ChildCell), ((m childId).call cell).1.child.spec = cell.child.spec ∧
      Reports childId cell.child ((m childId).call cell).1.child ((m childId).call cell).2)
    (distinct : childIds.Nodup) (cell : SupervisorCell) :
    let after := (eachChild m childIds).call cell
    KeptBut childIds cell.supervisor after.1.supervisor ∧
      ∀ events, after.2 = .ok events → ∀ event ∈ events,
        event.childId ∈ childIds ∧ Names cell.supervisor after.1.supervisor event := by
  induction childIds generalizing cell with
  | nil =>
    exact ⟨KeptBut.refl _ _, fun events eq event member => by
      cases eq
      cases member⟩
  | cons childId rest ih =>
    obtain ⟨fresh, distinct⟩ := nodup_cons.mp distinct
    unfold eachChild
    rw [call_bind]
    cases found : cell.supervisor.children[childId]? with
    | none =>
      rw [call_atChild_missing found]
      exact ⟨KeptBut.refl _ _, fun events eq => by cases eq⟩
    | some child =>
      rw [call_atChild found]
      obtain ⟨spec, report⟩ := reports childId ⟨child, cell.processes⟩
      rcases run : (m childId).call ⟨child, cell.processes⟩ with ⟨inner, e | event⟩
      · rw [run] at spec report
        exact ⟨(keptBut_insert found spec).cons (.refl rest _), fun events eq => by cases eq⟩
      rw [run] at spec report
      have kept := keptBut_insert found spec
      dsimp only
      obtain ⟨keptRest, names⟩ := ih distinct
        ⟨{ cell.supervisor with
          children := cell.supervisor.children.insert childId inner.child }, inner.processes⟩
      rw [call_bind]
      rcases run' : (eachChild m rest).call
        ⟨{ cell.supervisor with
          children := cell.supervisor.children.insert childId inner.child },
          inner.processes⟩ with ⟨last, e | events⟩
      · rw [run'] at keptRest
        exact ⟨kept.cons keptRest, fun events eq => by cases eq⟩
      rw [run'] at keptRest names
      refine ⟨kept.cons keptRest, fun all eq => ?_⟩
      cases eq
      intro e member
      rcases mem_append.mp member with own | later
      · obtain ⟨rfl⟩ : event = some e := Option.mem_toList.mp own
        obtain ⟨rfl, old, new⟩ := report
        refine ⟨mem_cons_self, ?_, ?_⟩
        · rw [VmSupervisor.pidOf, found, old]
          rfl
        · exact (keptRest.pidOf fresh).trans (pidOf_insert.trans (congrArg some new))
      · obtain ⟨listed, before, after⟩ := names events rfl e later
        refine ⟨mem_cons_of_mem _ listed, ?_, after⟩
        rw [← before, kept.pidOf]
        exact fun same => fresh (mem_singleton.mp same ▸ listed)

/-! ## The policy -/

/-- The child would be restarted and has used up its restarts. -/
def exhausted (supervisor : VmSupervisor) (reason : VmExitReason) (childId : String) : Bool :=
  supervisor.children[childId]?.any fun child =>
    child.spec.restartClass.shouldRestart reason && child.restartCount ≥ child.spec.restartLimit

/-- The children that the policy restarts with one of them. -/
def selectedChildren (supervisor : VmSupervisor) (childId : String) : List String :=
  match supervisor.policy with
  | .oneForOne => [childId]
  | .oneForAll => supervisor.childOrder
  | .restForOne => supervisor.childOrder.drop (supervisor.childOrder.idxOf childId)

/-- The first selected child that has used up its restarts, if any, is the one that the
restart is for. -/
def LimitAtTrigger (supervisor : VmSupervisor) (childId : String) (reason : VmExitReason) : Prop :=
  childId ∈ supervisor.children → ∀ first,
    (selectedChildren supervisor childId).find? (exhausted supervisor reason) = some first →
      first = childId

theorem limitedChild_first (h : limitedChild supervisor reason childIds = .ok (some child)) :
    ∃ first, childIds.find? (exhausted supervisor reason) = some first ∧
      supervisor.pidOf first = some child.pid := by
  induction childIds with
  | nil => cases h
  | cons childId rest ih =>
    unfold limitedChild at h
    cases found : supervisor.children[childId]? with
    | none =>
      simp only [found] at h
      cases h
    | some other =>
      simp only [found] at h
      by_cases limited : other.spec.restartClass.shouldRestart reason = true ∧
          other.restartCount ≥ other.spec.restartLimit
      · rw [if_pos limited] at h
        cases h
        refine ⟨childId, find?_cons_of_pos ?_, by rw [VmSupervisor.pidOf, found]; rfl⟩
        simp only [exhausted, found, Option.any_some, limited.1, limited.2, decide_true,
          Bool.and_self]
      · rw [if_neg limited] at h
        obtain ⟨first, searched, pid⟩ := ih h
        refine ⟨first, ?_, pid⟩
        rw [find?_cons_of_neg, searched]
        simp only [exhausted, found, Option.any_some, Bool.and_eq_true, decide_eq_true_eq]
        exact limited

/-- What a restart says, about the supervisor before and after it. -/
def SaysTrue (childId : String) (before after : VmSupervisor) :
    Except (Fault String) VmSupervisionRestart → Prop
  | .error _ => True
  | .ok (.restarted oldPid newPid _ _ _) =>
    before.pidOf childId = some oldPid ∧ after.pidOf childId = some newPid
  | .ok (.restartedGroup events) => ∀ event ∈ events, Names before after event
  | .ok (.notRestarted pid _ _) => before.pidOf childId = some pid
  | .ok (.limitReached pid _) => before.pidOf childId = some pid

/-- One child, of the supervisor that has it. -/
theorem atChild_saysTrue {childId : String} :
    let after := (atChild missing childId (ChildCell.restartOneForOneChild reason)).call cell
    Quiet cell.supervisor after.1.supervisor ∧
      SaysTrue childId cell.supervisor after.1.supervisor after.2 := by
  cases found : cell.supervisor.children[childId]? with
  | none =>
    rw [call_atChild_missing found]
    exact ⟨.refl _, trivial⟩
  | some child =>
    rw [call_atChild found]
    obtain ⟨spec, report⟩ := @restartOneForOneChild_reports ⟨child, cell.processes⟩ reason
    have before : cell.supervisor.pidOf childId = some child.pid := by
      rw [VmSupervisor.pidOf, found]
      rfl
    refine ⟨(keptBut_insert found spec).toQuiet, ?_⟩
    revert report
    rcases (ChildCell.restartOneForOneChild reason).call ⟨child, cell.processes⟩ with
      ⟨inner, e | restart⟩
    · exact fun _ => trivial
    cases restart with
    | restarted oldPid newPid count delay timeout =>
      rintro ⟨rfl, new⟩
      exact ⟨before, pidOf_insert.trans (congrArg some new)⟩
    | restartedGroup events => exact False.elim
    | notRestarted | limitReached =>
      rintro ⟨rfl, _⟩
      exact before

/-- A group of different children. -/
theorem restartChildGroup_saysTrue (distinct : childIds.Nodup) (childId : String) :
    let after := (restartChildGroup childIds reason).call cell
    Quiet cell.supervisor after.1.supervisor ∧
      ((∀ first, childIds.find? (exhausted cell.supervisor reason) = some first →
          first = childId) →
        SaysTrue childId cell.supervisor after.1.supervisor after.2) := by
  unfold restartChildGroup
  rw [call_get_bind, call_check_bind]
  rcases limited : limitedChild cell.supervisor reason childIds with e | _ | child
  · exact ⟨.refl _, fun _ => trivial⟩
  · dsimp only
    rw [call_bind]
    obtain ⟨kept, names⟩ := eachChild_names
      (fun childId cell => @restartMember_reports cell reason childId) distinct cell
    revert kept names
    rcases (eachChild (ChildCell.restartMember reason) childIds).call cell with ⟨last, e | events⟩
    · exact fun kept _ => ⟨kept.toQuiet, fun _ => trivial⟩
    · exact fun kept names =>
        ⟨kept.toQuiet, fun _ event member => (names events rfl event member).2⟩
  · refine ⟨.refl _, fun trigger => ?_⟩
    obtain ⟨first, searched, pid⟩ := limitedChild_first limited
    rw [trigger first searched] at pid
    exact pid

theorem failIf_isNone_ok {childId : String}
    (h : failIf (supervisor.children[childId]?.isNone = true) missing = .ok ()) :
    childId ∈ supervisor.children := by
  rw [failIf_ok_iff, Option.isNone_iff_eq_none] at h
  exact ExtTreeMap.mem_iff_isSome_getElem?.mpr (Option.isSome_iff_ne_none.mpr h)

theorem applyPolicy_saysTrue (childId : String) (distinct : cell.supervisor.childOrder.Nodup) :
    let after := (applyPolicy childId reason).call cell
    Quiet cell.supervisor after.1.supervisor ∧
      (LimitAtTrigger cell.supervisor childId reason →
        SaysTrue childId cell.supervisor after.1.supervisor after.2) := by
  unfold applyPolicy LimitAtTrigger selectedChildren
  rw [call_get_bind]
  cases policy : cell.supervisor.policy with
  | oneForOne => exact atChild_saysTrue.imp_right fun truth _ => truth
  | oneForAll =>
    dsimp only
    rw [call_check_bind]
    rcases there : failIf (cell.supervisor.children[childId]?.isNone = true)
      (Fault.returned s!"missing child `{childId}`") with e | _
    · exact ⟨.refl _, fun _ => trivial⟩
    · exact (restartChildGroup_saysTrue distinct childId).imp_right fun truth trigger =>
        truth (trigger (failIf_isNone_ok there))
  | restForOne =>
    dsimp only
    rw [call_check_bind]
    rcases there : failIf (cell.supervisor.children[childId]?.isNone = true)
      (Fault.returned s!"missing child `{childId}`") with e | _
    · exact ⟨.refl _, fun _ => trivial⟩
    dsimp only
    rw [call_check_bind]
    by_cases listed : childId ∈ cell.supervisor.childOrder
    · rw [laterChildren, if_pos listed]
      exact (restartChildGroup_saysTrue (distinct.sublist (drop_sublist _ _))
        childId).imp_right fun truth trigger => truth (trigger (failIf_isNone_ok there))
    · rw [laterChildren, if_neg listed]
      exact ⟨.refl _, fun _ => trivial⟩

/-! ## What a restart writes -/

/-- An entry names the process that its child had, and the one it has. -/
def NamesEntry (before after : VmSupervisor) (entry : VmSupervisorRestartHistoryEntry) : Prop :=
  before.pidOf entry.childId = some entry.oldPid ∧
    ∀ pid, entry.newPid = some pid → after.pidOf entry.childId = some pid

/-- One write to a supervisor: the new entries are true, and so is a new failure. -/
structure Writes (before after : VmSupervisor) : Prop extends Kept before after where
  history : ∃ entries, after.restartHistory = before.restartHistory ++ entries ∧
    ∀ entry ∈ entries, NamesEntry before after entry
  failure : ∀ childId pid reason, after.state = .failed childId pid reason →
    before.state = .failed childId pid reason ∨ before.pidOf childId = some pid

variable {before after : VmSupervisor}

theorem Quiet.writes (h : Quiet before after) : Writes before after :=
  ⟨h.toKept, ⟨[], by rw [h.restartHistory, append_nil], fun _ member => by cases member⟩,
    fun _ _ _ failed => .inl (h.state ▸ failed)⟩

theorem restartEntries_name {childId : String}
    {restart : VmSupervisionRestart} (h : SaysTrue childId before after (.ok restart)) :
    ∀ entry ∈ after.restartEntries childId reason restart, NamesEntry before after entry := by
  intro entry member
  cases restart with
  | restarted oldPid newPid count delay timeout =>
    cases mem_singleton.mp member
    exact ⟨h.1, fun pid eq => by cases eq; exact h.2⟩
  | restartedGroup events =>
    obtain ⟨event, listed, rfl⟩ := mem_map.mp member
    obtain ⟨old, new⟩ := h event listed
    exact ⟨old, fun pid eq => by cases eq; exact new⟩
  | notRestarted | limitReached =>
    cases mem_singleton.mp member
    exact ⟨h, fun _ eq => by cases eq⟩

theorem Kept.recorded (h : Kept before after)
    {state : VmSupervisorState} {restartHistory : List VmSupervisorRestartHistoryEntry} :
    Kept before { after with state, restartHistory } :=
  ⟨h.id, h.parentId, h.name, h.policy, h.childOrder, h.spec⟩

/-- A supervisor after its record, in the same state or another one. -/
theorem recorded_writes {childId : String}
    {restart : VmSupervisionRestart} (quiet : Quiet before after)
    (h : SaysTrue childId before after (.ok restart)) {state : VmSupervisorState}
    (failure : ∀ childId pid reason, state = .failed childId pid reason →
      before.state = .failed childId pid reason ∨ before.pidOf childId = some pid) :
    Writes before { after.recordSupervisionRestart childId reason restart with state } :=
  ⟨quiet.toKept.recorded,
    ⟨_, by rw [← quiet.restartHistory]; rfl, restartEntries_name h⟩, failure⟩

theorem restartChild_writes (childId : String) (distinct : cell.supervisor.childOrder.Nodup) :
    let after := ((restartChild childId reason).call cell).1.supervisor
    Kept cell.supervisor after ∧
      (LimitAtTrigger cell.supervisor childId reason → Writes cell.supervisor after) := by
  obtain ⟨quiet, truth⟩ := @applyPolicy_saysTrue cell reason childId distinct
  unfold restartChild
  rw [call_bind]
  revert quiet truth
  rcases (applyPolicy childId reason).call cell with ⟨last, e | restart⟩
  · exact fun quiet _ => ⟨quiet.toKept, fun _ => quiet.writes⟩
  intro quiet truth
  have same := fun trigger => @recorded_writes reason cell.supervisor last.supervisor childId
    restart quiet (truth trigger) last.supervisor.state
    fun _ _ _ failed => .inl (quiet.state ▸ failed)
  have kept := quiet.toKept
  cases restart with
  | restarted | restartedGroup | notRestarted => exact ⟨kept.recorded, same⟩
  | limitReached pid count =>
    refine ⟨kept.recorded, fun trigger => ?_⟩
    refine @recorded_writes reason cell.supervisor last.supervisor childId _ quiet
      (truth trigger) (.failed childId pid reason) fun _ _ _ failed => ?_
    cases failed
    exact .inr (truth trigger)

theorem restartAfterBackoff_writes {childId : String} : Writes cell.supervisor
      ((Supervised.restartAfterBackoff childId reason).call cell).1.supervisor := by
  obtain ⟨quiet, truth⟩ := @atChild_saysTrue cell reason
    (.returned s!"missing child `{childId}`") childId
  unfold Supervised.restartAfterBackoff
  rw [call_bind]
  revert quiet truth
  rcases (atChild (.returned s!"missing child `{childId}`") childId
    (ChildCell.restartOneForOneChild reason)).call cell with ⟨last, e | restart⟩
  · exact fun quiet _ => quiet.writes
  · exact fun quiet truth => @recorded_writes reason cell.supervisor last.supervisor childId restart
      quiet truth last.supervisor.state fun _ _ _ failed => .inl (quiet.state ▸ failed)

theorem rebuild_writes (distinct : cell.supervisor.childOrder.Nodup) :
    Writes cell.supervisor ((rebuild reason).call cell).1.supervisor := by
  unfold rebuild
  rw [call_get_bind, call_ite]
  split
  next =>
    exact ⟨⟨rfl, rfl, rfl, rfl, rfl, fun _ => rfl⟩, ⟨[], (append_nil _).symm,
      fun _ member => by cases member⟩, fun _ _ _ failed => by cases failed⟩
  next =>
    obtain ⟨kept, names⟩ := eachChild_names
      (fun childId cell => @rebuildMember_reports cell reason childId) distinct cell
    rw [call_bind]
    revert kept names
    rcases (eachChild (ChildCell.rebuildMember reason) cell.supervisor.childOrder).call cell with
      ⟨last, e | events⟩
    · exact fun kept _ => kept.toQuiet.writes
    exact fun kept names => @recorded_writes reason cell.supervisor last.supervisor
      "<supervisor>" (.restartedGroup events) kept.toQuiet
      (fun event member => (names events rfl event member).2) .running
      fun _ _ _ failed => by cases failed

end Children

end Terlan.Supervision
