/-
  The tree of supervisors, and the restart of the subtrees that a failure selects.

  * `restart_failed_supervisor`: it ends, rebuilds every supervisor of the selected subtrees
    once, and leaves the others alone but for the parent, which is set running.
-/
import Terlan.Lib.Forest
import Terlan.Lib.Sorted
import Terlan.Supervision.Replacement
import Terlan.Supervision.Runs

namespace Terlan.Supervision

open Terlan.Lib Terlan.ActorDirectory Terlan.Process Supervised List
open Std (ExtTreeMap)
open Relation (ReflTransGen)

/-! ## What is not moved -/

/-- Every supervisor keeps its place. -/
structure SameTree (s s' : Supervised) : Prop where
  next : s'.system.nextSupervisorId = s.system.nextSupervisorId
  each : ∀ id : VmSupervisorId,
    Option.Rel Same (s.system.supervisors[id]?) (s'.system.supervisors[id]?)

section SameTree

variable {α : Type} {s s' s'' : Supervised} {id : VmSupervisorId} {supervisor : VmSupervisor}

theorem SameTree.of_system_eq (h : s'.system = s.system) : SameTree s s' := by
  refine ⟨by rw [h], fun id => ?_⟩
  rw [h]
  cases s.system.supervisors[id]? with
  | none => exact .none
  | some supervisor => exact .some (.refl supervisor)

theorem SameTree.refl (s : Supervised) : SameTree s s := .of_system_eq rfl

theorem SameTree.forward (h : SameTree s s') (found : s.system.supervisors[id]? = some supervisor) :
    ∃ supervisor', s'.system.supervisors[id]? = some supervisor' ∧ Same supervisor supervisor' := by
  have each := h.each id
  rw [found] at each
  revert each
  generalize s'.system.supervisors[id]? = result
  rintro ⟨same⟩
  exact ⟨_, rfl, same⟩

theorem SameTree.backward (h : SameTree s s')
    (found : s'.system.supervisors[id]? = some supervisor) :
    ∃ before, s.system.supervisors[id]? = some before ∧ Same before supervisor := by
  have each := h.each id
  rw [found] at each
  revert each
  generalize s.system.supervisors[id]? = start
  rintro ⟨same⟩
  exact ⟨_, rfl, same⟩

theorem SameTree.trans (h : SameTree s s') (h' : SameTree s' s'') : SameTree s s'' := by
  refine ⟨h'.next.trans h.next, fun id => ?_⟩
  have first := h.each id
  have second := h'.each id
  revert first second
  generalize s.system.supervisors[id]? = a
  generalize s'.system.supervisors[id]? = b
  generalize s''.system.supervisors[id]? = c
  intro first second
  cases first with
  | none =>
    cases second with
    | none => exact .none
  | some same =>
    cases second with
    | some same' => exact .some (same.trans same')

theorem sameTree_insert (found : s.system.supervisors[id]? = some supervisor)
    {supervisor' : VmSupervisor} (same : Same supervisor supervisor') (processes : VmProcessTable) :
    SameTree s
      ⟨{ s.system with supervisors := s.system.supervisors.insert id supervisor' }, processes⟩ := by
  refine ⟨rfl, fun other => ?_⟩
  dsimp only
  rw [getElem?_insert_eq]
  split
  next eq =>
    cases eq
    rw [found]
    exact .some same
  next => exact (SameTree.refl s).each other

theorem sameTree_atSupervisor {m : SupervisorM α}
    (same : ∀ supervisor, s.system.supervisors[id]? = some supervisor →
      Same supervisor (m.call ⟨supervisor, s.processes⟩).1.supervisor) :
    SameTree s ((atSupervisor id m).call s).1 := by
  cases found : s.system.supervisors[id]? with
  | none =>
    rw [call_atSupervisor_missing found]
    exact .refl s
  | some supervisor =>
    rw [call_atSupervisor found]
    exact sameTree_insert found (same supervisor found) _

theorem sameTree_setState (id : VmSupervisorId) (state : VmSupervisorState) (s : Supervised) :
    SameTree s (setState id state s) := by
  unfold setState
  cases found : s.system.supervisors[id]? with
  | none => exact .refl s
  | some supervisor =>
    exact @sameTree_insert s id supervisor found { supervisor with state }
      ⟨rfl, rfl, fun ordered => ⟨ordered.distinct, ordered.listed⟩⟩ _

theorem SameTree.allOrdered (h : SameTree s s') (ordered : AllOrdered s) : AllOrdered s' := by
  intro id supervisor' found'
  obtain ⟨supervisor, found, same⟩ := h.backward found'
  exact same.ordered (ordered id supervisor found)

variable {reason : VmExitReason}

theorem sameTree_rebuilt (ordered : AllOrdered s) (h : Rebuilt reason s s') : SameTree s s' := by
  obtain ⟨id, rfl⟩ := h
  exact sameTree_atSupervisor fun supervisor found =>
    (@rebuild_writes ⟨supervisor, s.processes⟩ reason
      (ordered id supervisor found).distinct).toKept.same

theorem sameTree_rebuilds (ordered : AllOrdered s) (h : Rebuilds reason s s') : SameTree s s' := by
  induction h with
  | refl => exact .refl s
  | tail _ last ih => exact ih.trans (sameTree_rebuilt (ih.allOrdered ordered) last)

theorem sameTree_restartChild {childId : String} (ordered : AllOrdered s) :
    SameTree s ((restartChild id childId reason).call s).1 := by
  have first : SameTree s ((atSupervisor id (SupervisorCell.restartChild childId reason)).call s).1 :=
    sameTree_atSupervisor fun supervisor found => (@restartChild_writes ⟨supervisor, s.processes⟩
      reason childId (ordered id supervisor found).distinct).1.same
  unfold restartChild
  rw [call_bind]
  revert first
  rcases (atSupervisor id (SupervisorCell.restartChild childId reason)).call s with
    ⟨s', e | ⟨restart, _ | parentId⟩⟩
  · exact fun first => first
  · exact fun first => first
  · exact fun first => first.trans (sameTree_setState parentId _ s')

def Request.Creates : Request → Prop
  | .createSupervisor _ _ => True
  | .createChildSupervisor _ _ _ => True
  | _ => False

/-- Only new supervisors change the tree. -/
theorem sameTree_call {request : Request} (ordered : AllOrdered s) (old : ¬ request.Creates) :
    SameTree s (call s request).1 := by
  cases request with
  | createSupervisor | createChildSupervisor => exact absurd trivial old
  | startChild supervisorId spec =>
    exact sameTree_atSupervisor fun supervisor _ =>
      (step_startChildUnder spec ⟨supervisor, _⟩).toSame
  | restartChild supervisorId childId reason => exact sameTree_restartChild ordered
  | restartChildAfterBackoff supervisorId childId reason =>
    exact sameTree_atSupervisor fun supervisor _ =>
      (@restartAfterBackoff_writes ⟨supervisor, s.processes⟩ reason childId).toKept.same
  | restartFailedSupervisor depth failedId reason =>
    obtain ⟨last, path, closes⟩ := @restartFailedSupervisor_rebuilds s reason depth failedId
    refine (sameTree_rebuilds ordered path).trans ?_
    rcases closes with eq | ⟨parentId, eq⟩
    · rw [show (call s (.restartFailedSupervisor depth failedId reason)).1 = last from eq]
      exact .refl last
    · rw [show (call s (.restartFailedSupervisor depth failedId reason)).1 = _ from eq]
      exact sameTree_setState parentId _ last
  | elsewhere processes => exact .of_system_eq rfl

end SameTree

/-! ## The tree -/

/-- Each supervisor is kept under its own identity, which is larger than its parent's. -/
structure Tree (system : VmSupervisionSystem) : Prop where
  named : ∀ (id : VmSupervisorId) (supervisor : VmSupervisor),
    system.supervisors[id]? = some supervisor →
      supervisor.id = id ∧ id.value ≤ system.nextSupervisorId
  parent : ∀ (id : VmSupervisorId) (supervisor : VmSupervisor) (parentId : VmSupervisorId),
    system.supervisors[id]? = some supervisor → supervisor.parentId = some parentId →
      parentId ∈ system.supervisors ∧ parentId.value < id.value

/-- The second supervisor is a child of the first. -/
def ChildOf (system : VmSupervisionSystem) (parentId id : VmSupervisorId) : Prop :=
  ∃ supervisor, system.supervisors[id]? = some supervisor ∧ supervisor.parentId = some parentId

section Tree

variable {system : VmSupervisionSystem} {s s' : Supervised} {id parentId : VmSupervisorId}

theorem tree_new : Tree .new := by
  refine ⟨fun id supervisor found => ?_, fun id supervisor parentId found => ?_⟩
  · rw [new_none id] at found
    cases found
  · rw [new_none id] at found
    cases found

theorem SameTree.tree (h : SameTree s s') (tree : Tree s.system) : Tree s'.system := by
  refine ⟨fun id supervisor' found' => ?_, fun id supervisor' parentId found' below => ?_⟩
  · obtain ⟨supervisor, found, same⟩ := h.backward found'
    rw [same.id, h.next]
    exact tree.named id supervisor found
  · obtain ⟨supervisor, found, same⟩ := h.backward found'
    obtain ⟨there, less⟩ := tree.parent id supervisor parentId found (same.parentId ▸ below)
    obtain ⟨parent, foundParent⟩ := Option.isSome_iff_exists.mp
      (ExtTreeMap.mem_iff_isSome_getElem?.mp there)
    obtain ⟨parent', foundParent', _⟩ := h.forward foundParent
    exact ⟨ExtTreeMap.mem_iff_isSome_getElem?.mpr (Option.isSome_iff_exists.mpr ⟨_, foundParent'⟩),
      less⟩

theorem SameTree.childOf (h : SameTree s s') :
    ChildOf s'.system parentId id ↔ ChildOf s.system parentId id := by
  constructor
  · rintro ⟨supervisor', found', below⟩
    obtain ⟨supervisor, found, same⟩ := h.backward found'
    exact ⟨supervisor, found, same.parentId ▸ below⟩
  · rintro ⟨supervisor, found, below⟩
    obtain ⟨supervisor', found', same⟩ := h.forward found
    exact ⟨supervisor', found', same.parentId.trans below⟩

theorem mem_childSupervisors (tree : Tree system) :
    id ∈ system.childSupervisors parentId ↔ ChildOf system parentId id := by
  unfold VmSupervisionSystem.childSupervisors ChildOf
  rw [mem_filterMap]
  constructor
  · rintro ⟨supervisor, listed, named⟩
    obtain ⟨key, found⟩ := mem_valuesOf.mp listed
    split at named
    next below =>
      cases named
      rw [(tree.named key supervisor found).1]
      exact ⟨supervisor, found, below⟩
    next => cases named
  · rintro ⟨supervisor, found, below⟩
    exact ⟨supervisor, mem_valuesOf.mpr ⟨id, found⟩,
      by rw [if_pos below, (tree.named id supervisor found).1]⟩

/-- The children of a supervisor, in the order of their identities. -/
theorem childSupervisors_sorted (tree : Tree system) (parentId : VmSupervisorId) :
    (system.childSupervisors parentId).Pairwise (·.value < ·.value) := by
  unfold VmSupervisionSystem.childSupervisors valuesOf
  rw [filterMap_map, pairwise_filterMap]
  have sorted : system.supervisors.toList.Pairwise fun a b => compare a.1 b.1 = .lt :=
    ExtTreeMap.ordered_keys_toList
  refine sorted.imp_of_mem fun {a b} memA memB order x left y right => ?_
  have foundA := ExtTreeMap.mem_toList_iff_getElem?_eq_some.mp memA
  have foundB := ExtTreeMap.mem_toList_iff_getElem?_eq_some.mp memB
  have pick : ∀ {p : VmSupervisorId × VmSupervisor} {x : VmSupervisorId},
      ((fun supervisor : VmSupervisor => if supervisor.parentId = some parentId then
        some supervisor.id else none) ∘ Prod.snd) p = some x → x = p.2.id := by
    intro p x found
    unfold Function.comp at found
    dsimp only at found
    split at found
    next =>
      cases found
      rfl
    next => cases found
  rw [pick left, pick right, (tree.named _ _ foundA).1, (tree.named _ _ foundB).1]
  exact Std.compare_eq_lt.mp order

theorem SameTree.childSupervisors (h : SameTree s s') (tree : Tree s.system) :
    s'.system.childSupervisors = s.system.childSupervisors := by
  funext parentId
  have sorted {system : VmSupervisionSystem} (tree : Tree system) :
      (system.childSupervisors parentId).Pairwise (KeyLT fun id => id) :=
    (childSupervisors_sorted tree parentId).imp fun less => Std.compare_eq_lt.mpr less
  have same := keys_eq_of_sorted (sorted (h.tree tree)) (sorted tree) fun id => by
    rw [map_id', map_id', mem_childSupervisors (h.tree tree), mem_childSupervisors tree]
    exact h.childOf
  rwa [map_id', map_id'] at same

theorem tree_forest (tree : Tree system) :
    Forest system.childSupervisors fun id => id.value.toNat := by
  refine ⟨fun parentId => ?_, fun p p' id left right => ?_, fun p id child => ?_⟩
  · refine (childSupervisors_sorted tree parentId).imp fun less eq => ?_
    rw [eq] at less
    exact absurd less (UInt64.lt_irrefl _)
  · obtain ⟨supervisor, found, below⟩ := (mem_childSupervisors tree).mp left
    obtain ⟨supervisor', found', below'⟩ := (mem_childSupervisors tree).mp right
    cases found.symm.trans found'
    exact Option.some.inj (below.symm.trans below')
  · obtain ⟨supervisor, found, below⟩ := (mem_childSupervisors tree).mp child
    exact UInt64.lt_iff_toNat_lt.mp (tree.parent id supervisor p found below).2

/-- A supervisor with the next identity, below one that is there. -/
theorem tree_insertSupervisor (tree : Tree system) (free : system.nextSupervisorId.toNat < u64Max)
    {parentId : Option VmSupervisorId} (there : ∀ p, parentId = some p → p ∈ system.supervisors)
    (name : String) (policy : VmRestartPolicy) :
    Tree (system.insertSupervisor parentId name policy).1 := by
  unfold VmSupervisionSystem.insertSupervisor
  have next : system.nextSupervisorId < saturatingAdd system.nextSupervisorId 1 := by
    rw [UInt64.lt_iff_toNat_lt, saturatingAdd_toNat]
    change _ < min (_ + 1) _
    omega
  refine ⟨fun id supervisor found => ?_, fun id supervisor p found below => ?_⟩
  · dsimp only at found ⊢
    rw [getElem?_insert_eq] at found
    split at found
    next eq =>
      cases found
      exact ⟨eq, UInt64.le_of_eq (congrArg VmSupervisorId.value eq.symm)⟩
    next =>
      obtain ⟨named, counted⟩ := tree.named id supervisor found
      exact ⟨named, UInt64.le_trans counted (UInt64.le_of_lt next)⟩
  · dsimp only at found ⊢
    rw [getElem?_insert_eq] at found
    split at found
    next eq =>
      cases eq
      cases found
      obtain ⟨parent, foundParent⟩ := Option.isSome_iff_exists.mp
        (ExtTreeMap.mem_iff_isSome_getElem?.mp (there p below))
      exact ⟨(Lib.mem_insert_iff _ _ _ _).mpr (.inr (there p below)),
        UInt64.lt_of_le_of_lt (tree.named p parent foundParent).2 next⟩
    next =>
      obtain ⟨old, less⟩ := tree.parent id supervisor p found below
      exact ⟨(Lib.mem_insert_iff _ _ _ _).mpr (.inr old), less⟩

end Tree

/-! ## Systems that runs reach -/

/-- A new supervisor finds an identity that has not been used, and what others leave in the
process table is a sound table. -/
def Request.Regular (s : Supervised) : Request → Prop
  | .createSupervisor _ _ => s.system.nextSupervisorId.toNat < u64Max
  | .createChildSupervisor _ _ _ => s.system.nextSupervisorId.toNat < u64Max
  | .elsewhere processes => processes.Sound
  | _ => True

structure Healthy (s : Supervised) : Prop where
  tree : Tree s.system
  ordered : AllOrdered s
  sound : s.processes.Sound

section Healthy

variable {s s' : Supervised} {reason : VmExitReason}

theorem keeps_atSupervisor {α : Type} {m : SupervisorM α} (h : Keeps SupervisorCell.Sound m)
    (id : VmSupervisorId) : Keeps (fun s => s.processes.Sound) (atSupervisor id m) := by
  refine keeps_get_bind fun s => ?_
  split
  next => exact keeps_throw _
  next supervisor _ => exact leads_within fun s => h ⟨supervisor, s.processes⟩

theorem setState_processes (id : VmSupervisorId) (state : VmSupervisorState) (s : Supervised) :
    (setState id state s).processes = s.processes := by
  unfold setState
  split <;> rfl

theorem rebuilds_sound (sound : s.processes.Sound) (h : Rebuilds reason s s') :
    s'.processes.Sound := by
  induction h with
  | refl => exact sound
  | tail _ last ih =>
    obtain ⟨id, rfl⟩ := last
    exact keeps_atSupervisor SupervisorCell.keeps_rebuild id _ ih

theorem healthy_rebuilds (healthy : Healthy s) (h : Rebuilds reason s s') : Healthy s' :=
  have same := sameTree_rebuilds healthy.ordered h
  ⟨same.tree healthy.tree, same.allOrdered healthy.ordered, rebuilds_sound healthy.sound h⟩

theorem call_sound {request : Request} (sound : s.processes.Sound)
    (regular : request.Regular s) : (call s request).1.processes.Sound := by
  cases request with
  | createSupervisor | createChildSupervisor => exact sound
  | startChild supervisorId spec =>
    exact keeps_atSupervisor (SupervisorCell.keeps_startChildUnder spec) supervisorId s sound
  | restartChild supervisorId childId reason =>
    refine keeps_bind (keeps_atSupervisor (SupervisorCell.keeps_restartChild childId) supervisorId)
      (fun result => ?_) s sound
    split
    next restart parentFailure =>
      cases parentFailure with
      | none => exact keeps_pure _
      | some parentId =>
        refine keeps_bind (leads_modify fun s sound => ?_) fun _ => keeps_pure _
        rw [setState_processes]
        exact sound
  | restartChildAfterBackoff supervisorId childId reason =>
    exact keeps_atSupervisor (SupervisorCell.keeps_restartAfterBackoff childId) supervisorId s sound
  | restartFailedSupervisor depth failedId reason =>
    obtain ⟨last, path, closes⟩ := @restartFailedSupervisor_rebuilds s reason depth failedId
    have sound := rebuilds_sound sound path
    rcases closes with eq | ⟨parentId, eq⟩
    · rw [show (call s (.restartFailedSupervisor depth failedId reason)).1 = last from eq]
      exact sound
    · rw [show (call s (.restartFailedSupervisor depth failedId reason)).1 = _ from eq,
        setState_processes]
      exact sound
  | elsewhere processes => exact regular

theorem healthy_insertSupervisor (healthy : Healthy s)
    (free : s.system.nextSupervisorId.toNat < u64Max) {parentId : Option VmSupervisorId}
    (there : ∀ p, parentId = some p → p ∈ s.system.supervisors) (name : String)
    (policy : VmRestartPolicy) :
    Healthy { s with system := (s.system.insertSupervisor parentId name policy).1 } :=
  ⟨tree_insertSupervisor healthy.tree free there name policy,
    (changes_insertSupervisor parentId name policy).allOrdered healthy.ordered, healthy.sound⟩

theorem healthy_call {request : Request} (healthy : Healthy s) (regular : request.Regular s) :
    Healthy (call s request).1 := by
  have sound := call_sound healthy.sound regular
  have moved (old : SameTree s (call s request).1) : Healthy (call s request).1 :=
    ⟨old.tree healthy.tree, old.allOrdered healthy.ordered, sound⟩
  cases request with
  | createSupervisor name policy =>
    exact healthy_insertSupervisor healthy regular (fun p eq => by cases eq) name policy
  | createChildSupervisor parentId name policy =>
    show Healthy
      { s with system := (s.system.createChildSupervisorWithPolicy parentId name policy).1 }
    unfold VmSupervisionSystem.createChildSupervisorWithPolicy
    split
    next there =>
      refine healthy_insertSupervisor healthy regular (fun p eq => ?_) name policy
      cases eq
      exact there
    next => exact healthy
  | startChild | restartChild | restartChildAfterBackoff | restartFailedSupervisor | elsewhere =>
    exact moved (sameTree_call healthy.ordered fun creates => creates)

theorem healthy_after {processes : VmProcessTable} (sound : processes.Sound)
    {requests : List Request}
    (regular : Guarded call (fun s request => request.Regular s) ⟨.new, processes⟩ requests) :
    Healthy (after processes requests) :=
  replay_invariant_of call (fun s request => request.Regular s) (fun s _ => Healthy s)
    (fun _ _ _ regular healthy => healthy_call healthy regular) ⟨.new, processes⟩ [] requests
    ⟨tree_new, allOrdered_new processes, sound⟩ regular

end Healthy

/-! ## The walk -/

section Walk

variable {s s' : Supervised} {reason : VmExitReason} {below : VmSupervisorId → List VmSupervisorId}

def rebuildOne (reason : VmExitReason) (id : VmSupervisorId) : SupervisedM Unit :=
  atSupervisor id (SupervisorCell.rebuild reason)

theorem restartEach_append (restart : VmSupervisorId → SupervisedM Unit)
    (front back : List VmSupervisorId) (s : Supervised) :
    (restartEach restart (front ++ back)).call s =
      (restartEach restart front >>= fun _ => restartEach restart back).call s := by
  induction front generalizing s with
  | nil => rfl
  | cons id rest ih =>
    rw [cons_append, restartEach, restartEach, call_bind, call_bind, call_bind]
    rcases (restart id).call s with ⟨s', e | _⟩
    · rfl
    · dsimp only
      rw [ih s', call_bind]

theorem restartEach_rebuildOne_rebuilds (ids : List VmSupervisorId) (s : Supervised) :
    Rebuilds reason s ((restartEach (rebuildOne reason) ids).call s).1 :=
  restartEach_rebuilds (fun id _ => .single ⟨id, rfl⟩) ids s

/-- The children of each supervisor, in a system that is kept in order. -/
structure Below (below : VmSupervisorId → List VmSupervisorId) (s : Supervised) : Prop extends
    Healthy s where
  eq : s.system.childSupervisors = below

theorem Below.rebuilds (h : Below below s) (path : Rebuilds reason s s') : Below below s' :=
  ⟨healthy_rebuilds h.toHealthy path,
    ((sameTree_rebuilds h.ordered path).childSupervisors h.tree).trans h.eq⟩

/-- A walk over several subtrees is one loop, when each of them is. -/
theorem restartEach_walk {restart : VmSupervisorId → SupervisedM Unit}
    {walk : VmSupervisorId → Option (List VmSupervisorId)}
    (each : ∀ id l s, walk id = some l → Below below s →
      (restart id).call s = (restartEach (rebuildOne reason) l).call s)
    {ids l : List VmSupervisorId} (h : walks walk ids = some l) (s : Supervised)
    (healthy : Below below s) :
    (restartEach restart ids).call s = (restartEach (rebuildOne reason) l).call s := by
  induction ids generalizing l s with
  | nil =>
    cases h
    rfl
  | cons id rest ih =>
    obtain ⟨front, back, first, others, rfl⟩ := walks_cons_eq_some.mp h
    rw [restartEach_append, restartEach, call_bind, call_bind, each id front s first healthy]
    have path := @restartEach_rebuildOne_rebuilds reason front s
    revert path
    rcases (restartEach (rebuildOne reason) front).call s with ⟨s', e | _⟩
    · exact fun _ => rfl
    · exact fun path => ih others s' (healthy.rebuilds path)

/-- The recursion is a loop over the supervisors in the order of the walk. -/
theorem restartSupervisorSubtree_walk {depth : Nat} {id : VmSupervisorId}
    {l : List VmSupervisorId} (h : preorder below depth id = some l) (s : Supervised)
    (healthy : Below below s) : (restartSupervisorSubtree reason depth id).call s =
      (restartEach (rebuildOne reason) l).call s := by
  induction depth generalizing id l s with
  | zero => cases h
  | succ depth ih =>
    obtain ⟨rest, others, rfl⟩ := preorder_succ_eq_some.mp h
    unfold restartSupervisorSubtree
    rw [call_get_bind, healthy.eq, restartEach]
    dsimp only
    rw [call_bind, call_bind]
    have path : Rebuilds reason s ((rebuildOne reason id).call s).1 := .single ⟨id, rfl⟩
    revert path
    unfold rebuildOne
    rcases (atSupervisor id (SupervisorCell.rebuild reason)).call s with ⟨s', e | _⟩
    · exact fun _ => rfl
    · exact fun path => restartEach_walk (fun id l s found => ih found s) others s'
        (healthy.rebuilds path)

/-- A loop that rebuilds different supervisors. -/
theorem restartEach_rebuild {olds : VmProcessId → Prop} {ids : List VmSupervisorId}
    (distinct : ids.Nodup) {s : Supervised} (healthy : Healthy s)
    (there : ∀ id ∈ ids, ∃ supervisor, s.system.supervisors[id]? = some supervisor)
    (own : ∀ id ∈ ids, ∀ childId pid, s.pidOf id childId = some pid → olds pid) :
    let after := (restartEach (rebuildOne reason) ids).call s
    (∀ id : VmSupervisorId, id ∉ ids →
        after.1.system.supervisors[id]? = s.system.supervisors[id]?) ∧
      Evolves olds s.processes after.1.processes ∧
      Ends (∀ id ∈ ids, ∀ supervisor, s.system.supervisors[id]? = some supervisor →
          ∃ supervisor', after.1.system.supervisors[id]? = some supervisor' ∧
            RebuiltFrom olds ⟨supervisor, s.processes⟩ ⟨supervisor', after.1.processes⟩)
        (fun e => ∃ id ∈ ids, ∃ childId pid, s.pidOf id childId = some pid ∧
          Excuse s.processes pid e) after.2 := by
  induction ids generalizing s with
  | nil => exact ⟨fun _ _ => rfl, .refl healthy.sound, fun _ member => absurd member not_mem_nil⟩
  | cons id rest ih =>
    obtain ⟨fresh, distinctRest⟩ := nodup_cons.mp distinct
    obtain ⟨supervisor, found⟩ := there id mem_cons_self
    obtain ⟨_, evolves, ends⟩ := @rebuild_cases olds reason ⟨supervisor, s.processes⟩
      healthy.sound (healthy.ordered id supervisor found) fun childId pid running =>
        own id mem_cons_self childId pid ((pidOf_found found childId).trans running)
    have path : Rebuilds reason s ((rebuildOne reason id).call s).1 := .single ⟨id, rfl⟩
    have healthy' := healthy_rebuilds healthy path
    rw [restartEach, call_bind]
    revert healthy' evolves ends
    rw [show (rebuildOne reason id).call s = _ from call_atSupervisor found]
    rcases (SupervisorCell.rebuild reason).call ⟨supervisor, s.processes⟩ with ⟨cell, e | _⟩
    · rintro evolves ⟨childId, pid, running, excuse⟩ _
      exact ⟨fun other ne => getElem?_insert_of_ne _ _ fun eq => ne (eq ▸ mem_cons_self),
        evolves, id, mem_cons_self, childId, pid,
        (pidOf_found found childId).trans running, excuse⟩
    · intro evolves rebuilt healthy'
      dsimp only at healthy' ⊢
      have others : ∀ other : VmSupervisorId, other ≠ id →
          (s.system.supervisors.insert id cell.supervisor)[other]? =
            s.system.supervisors[other]? := fun other ne => getElem?_insert_of_ne _ _ ne.symm
      have apart : ∀ other ∈ rest, other ≠ id := fun other member eq => fresh (eq ▸ member)
      obtain ⟨same, evolvesRest, ends⟩ := ih distinctRest healthy'
        (fun other member => by
          rw [others other (apart other member)]
          exact there other (mem_cons_of_mem _ member))
        (fun other member childId pid running => by
          refine own other (mem_cons_of_mem _ member) childId pid ?_
          rw [← running, Supervised.pidOf, Supervised.pidOf, others other (apart other member)])
      have same' : ∀ other : VmSupervisorId, other ∉ id :: rest → _ := fun other ne =>
        (same other fun member => ne (mem_cons_of_mem _ member)).trans
          (others other fun eq => ne (eq ▸ mem_cons_self))
      refine ⟨same', evolves.trans evolvesRest, ?_⟩
      have own' := (same id fresh).trans (getElem?_insert_self_eq _ id cell.supervisor)
      revert ends evolvesRest own'
      rcases (restartEach (rebuildOne reason) rest).call _ with ⟨last, e | _⟩
      · rintro evolvesRest ⟨other, member, childId, pid, running, excuse⟩ _
        refine ⟨other, mem_cons_of_mem _ member, childId, pid, ?_, excuse.earlier evolves⟩
        rw [← running, Supervised.pidOf, Supervised.pidOf, others other (apart other member)]
      intro evolvesRest each own'
      refine forall_mem_cons.mpr ⟨fun before found' => ?_, fun other member before found' => ?_⟩
      · cases found.symm.trans found'
        exact ⟨cell.supervisor, own', rebuilt.later evolvesRest⟩
      · obtain ⟨after, found'', rebuilt'⟩ := each other member before
          ((others other (apart other member)).trans found')
        exact ⟨after, found'', rebuilt'.earlier evolves⟩

end Walk

/-! ## The restart of a failed supervisor -/

/-- The supervisor is one of the roots or below one. -/
def InSubtrees (system : VmSupervisionSystem) (roots : List VmSupervisorId) (id : VmSupervisorId) :
    Prop := ∃ root ∈ roots, ReflTransGen (ChildOf system) root id

/-- A process of a child in the subtrees. -/
def RunsIn (s : Supervised) (roots : List VmSupervisorId) (pid : VmProcessId) : Prop :=
  ∃ id, InSubtrees s.system roots id ∧ ∃ childId, s.pidOf id childId = some pid

/-- The selected subtrees are rebuilt and the parent is set running, or a process of a child in
them is in the way; other supervisors are left alone. -/
structure RestartsSubtrees (s : Supervised) (parentId : VmSupervisorId) (parent : VmSupervisor)
    (selected : List VmSupervisorId)
    (result : Supervised × Except (Fault String) (List VmSupervisorId)) : Prop where
  outside : ∀ id : VmSupervisorId, ¬ InSubtrees s.system selected id → id ≠ parentId →
    result.1.system.supervisors[id]? = s.system.supervisors[id]?
  ends :
    (result.2 = .ok selected ∧
      result.1.system.supervisors[parentId]? = some { parent with state := .running } ∧
      ∀ (id : VmSupervisorId) (before : VmSupervisor), InSubtrees s.system selected id →
        s.system.supervisors[id]? = some before →
        ∃ after, result.1.system.supervisors[id]? = some after ∧
          RebuiltFrom (RunsIn s selected) ⟨before, s.processes⟩ ⟨after, result.1.processes⟩) ∨
    ∃ e, result.2 = .error e ∧ result.1.system.supervisors[parentId]? = some parent ∧
      ∃ pid, RunsIn s selected pid ∧ Excuse s.processes pid e

section Restart

variable {s : Supervised} {reason : VmExitReason} {failedId parentId id : VmSupervisorId}
  {parent : VmSupervisor}

theorem under_iff (healthy : Healthy s) :
    Under s.system.childSupervisors parentId id ↔ ReflTransGen (ChildOf s.system) parentId id := by
  have same : (fun i j => j ∈ s.system.childSupervisors i) = ChildOf s.system := by
    funext i j
    exact propext (mem_childSupervisors healthy.tree)
  rw [Under, same]

theorem selectSupervisors_sublist (policy : VmRestartPolicy) {siblings : List VmSupervisorId}
    (listed : failedId ∈ siblings) :
    (selectSupervisors policy siblings failedId).Sublist siblings := by
  cases policy with
  | oneForOne => exact singleton_sublist.mpr listed
  | oneForAll => exact List.Sublist.refl _
  | restForOne => exact drop_sublist _ _

theorem restartScope_child (healthy : Healthy s) (child : ChildOf s.system parentId failedId)
    (found : s.system.supervisors[parentId]? = some parent) :
    restartScope s.system failedId = .ok (parentId,
      selectSupervisors parent.policy (s.system.childSupervisors parentId) failedId) := by
  obtain ⟨failed, foundFailed, below⟩ := child
  have listed : failedId ∈ s.system.childSupervisors parentId :=
    (mem_childSupervisors healthy.tree).mpr ⟨failed, foundFailed, below⟩
  refine except_bind_ok_iff.mpr ⟨failed, by rw [foundFailed]; rfl, ?_⟩
  refine except_bind_ok_iff.mpr ⟨parentId, by rw [below]; rfl, ?_⟩
  refine except_bind_ok_iff.mpr ⟨parent, by rw [found]; rfl, ?_⟩
  exact check_bind_ok_iff.mpr ⟨failIf_ok_iff.mpr (not_not.mpr listed), rfl⟩

theorem restartScope_other (none : ∀ parentId, ¬ ChildOf s.system parentId failedId) :
    ∃ text, restartScope s.system failedId = .error (.returned text) := by
  unfold restartScope
  cases found : s.system.supervisors[failedId]? with
  | none => exact ⟨_, rfl⟩
  | some failed =>
    cases root : failed.parentId with
    | none =>
      refine ⟨s!"root supervisor {failedId.value} has no parent restart strategy", ?_⟩
      show (failed.parentId.elim (Except.error _) Except.ok >>= _) = _
      rw [root]
      rfl
    | some parentId => exact absurd ⟨failed, found, root⟩ (none parentId)

/-- The walks over the selected subtrees come to an end, and visit each supervisor once. -/
theorem selected_walk (healthy : Healthy s) (child : ChildOf s.system parentId failedId)
    (policy : VmRestartPolicy) :
    let selected := selectSupervisors policy (s.system.childSupervisors parentId) failedId
    ∃ l, l.Nodup ∧ (∀ id, id ∈ l ↔ InSubtrees s.system selected id) ∧ parentId ∉ l ∧
      ∀ depth, s.system.nextSupervisorId.toNat < depth →
        walks (preorder s.system.childSupervisors depth) selected = some l := by
  intro selected
  have forest := tree_forest healthy.tree
  have sub : selected.Sublist (s.system.childSupervisors parentId) :=
    selectSupervisors_sublist policy ((mem_childSupervisors healthy.tree).mpr child)
  have bounded : ∀ p id, id ∈ s.system.childSupervisors p →
      id.value.toNat ≤ s.system.nextSupervisorId.toNat := by
    intro p id member
    obtain ⟨supervisor, found, _⟩ := (mem_childSupervisors healthy.tree).mp member
    exact UInt64.le_iff_toNat_le.mp (healthy.tree.named id supervisor found).2
  obtain ⟨l, walked⟩ := @walks_isSome _
    (preorder s.system.childSupervisors (s.system.nextSupervisorId.toNat + 1)) selected
    fun id _ => forest.preorder_isSome bounded (by omega) (by omega)
  have members : ∀ id, id ∈ l ↔ InSubtrees s.system selected id := by
    intro id
    rw [mem_walks walked]
    refine exists_congr fun root => and_congr_right fun member => ?_
    obtain ⟨front, found⟩ := walks_each walked member
    rw [← under_iff healthy, ← mem_preorder found, found]
    simp
  refine ⟨l, ?_, members, fun member => ?_, fun depth deep => ?_⟩
  · exact forest.nodup_walks (fun id member => sub.subset member) ((forest.distinct _).sublist sub)
      (fun _ _ found => forest.nodup_preorder found) walked
  · obtain ⟨root, listed, under⟩ := (members parentId).mp member
    exact absurd (forest.rank_le ((under_iff healthy).mpr under))
      (Nat.not_le.mpr (forest.rises parentId root (sub.subset listed)))
  · exact walks_congr (fun id _ l found => preorder_deeper deep found) walked

/-- The loop over all supervisors of the selected subtrees. -/
def rebuildAll (reason : VmExitReason) (parentId : VmSupervisorId)
    (selected l : List VmSupervisorId) : SupervisedM (List VmSupervisorId) := do
  restartEach (rebuildOne reason) l
  modify (setState parentId .running)
  return selected

theorem rebuildAll_restarts (healthy : Healthy s)
    (found : s.system.supervisors[parentId]? = some parent) {selected l : List VmSupervisorId}
    (distinct : l.Nodup) (members : ∀ id, id ∈ l ↔ InSubtrees s.system selected id)
    (there : ∀ id ∈ l, ∃ supervisor, s.system.supervisors[id]? = some supervisor)
    (apart : parentId ∉ l) :
    RestartsSubtrees s parentId parent selected ((rebuildAll reason parentId selected l).call s) := by
  obtain ⟨same, evolves, ends⟩ := @restartEach_rebuild reason (RunsIn s selected) l distinct s
    healthy there fun id member childId pid running => ⟨id, (members id).mp member, childId, running⟩
  unfold rebuildAll
  rw [call_bind]
  revert same evolves ends
  rcases (restartEach (rebuildOne reason) l).call s with ⟨last, e | _⟩
  · rintro same evolves ⟨id, member, childId, pid, running, excuse⟩
    refine ⟨fun id other _ => same id fun member => other ((members id).mp member), .inr ?_⟩
    exact ⟨e, rfl, (same parentId apart).trans found, pid,
      ⟨id, (members id).mp member, childId, running⟩, excuse⟩
  · intro same evolves each
    have foundParent : last.system.supervisors[parentId]? = some parent :=
      (same parentId apart).trans found
    dsimp only
    rw [call_bind]
    show RestartsSubtrees s parentId parent selected (setState parentId .running last, .ok selected)
    unfold setState
    rw [foundParent]
    refine ⟨fun id other ne => ?_, .inl ⟨rfl, getElem?_insert_self_eq _ _ _, ?_⟩⟩
    · exact (getElem?_insert_of_ne _ _ ne.symm).trans
        (same id fun member => other ((members id).mp member))
    · intro id before inside found'
      have member := (members id).mpr inside
      obtain ⟨after, found'', rebuilt⟩ := each id member before found'
      refine ⟨after, (getElem?_insert_of_ne _ _ fun eq => ?_).trans found'', rebuilt⟩
      exact apart (eq ▸ member)

/-- A supervisor that is to be restarted with its parent's policy. -/
theorem restartFailedSupervisor_child (healthy : Healthy s)
    (child : ChildOf s.system parentId failedId)
    (found : s.system.supervisors[parentId]? = some parent) :
    let selected := selectSupervisors parent.policy (s.system.childSupervisors parentId) failedId
    ∃ result, RestartsSubtrees s parentId parent selected result ∧
      ∀ depth, s.system.nextSupervisorId.toNat < depth →
        (restartFailedSupervisor depth failedId reason).call s = result := by
  intro selected
  obtain ⟨l, distinct, members, apart, walked⟩ := selected_walk healthy child parent.policy
  have sub : selected.Sublist (s.system.childSupervisors parentId) :=
    selectSupervisors_sublist parent.policy ((mem_childSupervisors healthy.tree).mpr child)
  have there : ∀ id ∈ l, ∃ supervisor, s.system.supervisors[id]? = some supervisor := by
    intro id member
    obtain ⟨root, listed, under⟩ := (members id).mp member
    rcases under.cases_tail with rfl | ⟨_, _, supervisor, found, _⟩
    · obtain ⟨supervisor, found, _⟩ := (mem_childSupervisors healthy.tree).mp (sub.subset listed)
      exact ⟨supervisor, found⟩
    · exact ⟨supervisor, found⟩
  refine ⟨_, @rebuildAll_restarts s reason parentId parent healthy found selected l distinct members
    there apart,
    fun depth deep => ?_⟩
  unfold restartFailedSupervisor rebuildAll
  rw [call_get_bind, call_check_bind, restartScope_child healthy child found]
  dsimp only
  rw [call_bind, call_bind, restartEach_walk (fun id l s found healthy =>
    restartSupervisorSubtree_walk found s healthy) (walked depth deep) s ⟨healthy, rfl⟩]

end Restart

/-- The restart of a supervisor below a parent, and of one that has none. -/
theorem restart_failed_supervisor {processes : VmProcessTable} (sound : processes.Sound)
    {requests : List Request}
    (regular : Guarded call (fun s request => request.Regular s) ⟨.new, processes⟩ requests)
    (failedId : VmSupervisorId) (reason : VmExitReason) :
    let s := after processes requests
    (∀ parentId, ChildOf s.system parentId failedId →
      let siblings := s.system.childSupervisors parentId
      (∀ id, id ∈ siblings ↔ ChildOf s.system parentId id) ∧
        siblings.Pairwise (·.value < ·.value) ∧
        ∃ parent, s.system.supervisors[parentId]? = some parent ∧
          ∃ result, RestartsSubtrees s parentId parent
              (selectSupervisors parent.policy siblings failedId) result ∧
            ∀ depth, s.system.nextSupervisorId.toNat < depth →
              (restartFailedSupervisor depth failedId reason).call s = result) ∧
    ((∀ parentId, ¬ ChildOf s.system parentId failedId) →
      ∃ text, ∀ depth, (restartFailedSupervisor depth failedId reason).call s =
        (s, .error (.returned text))) := by
  intro s
  have healthy : Healthy s := healthy_after sound regular
  constructor
  · intro parentId child siblings
    refine ⟨fun id => mem_childSupervisors healthy.tree,
      childSupervisors_sorted healthy.tree parentId, ?_⟩
    obtain ⟨failed, found, below⟩ := child
    obtain ⟨parent, foundParent⟩ := Option.isSome_iff_exists.mp
      (ExtTreeMap.mem_iff_isSome_getElem?.mp (healthy.tree.parent failedId failed parentId found
        below).1)
    exact ⟨parent, foundParent,
      restartFailedSupervisor_child healthy ⟨failed, found, below⟩ foundParent⟩
  · intro none
    obtain ⟨text, failed⟩ := restartScope_other none
    refine ⟨text, fun depth => ?_⟩
    unfold restartFailedSupervisor
    rw [call_get_bind, call_check_bind, failed]

/-- A supervisor below another one, and a child of it that fails for good. -/
def nested : List Request :=
  [.createSupervisor "outer" .oneForOne, .createChildSupervisor ⟨1⟩ "inner" .oneForOne,
    .startChild ⟨2⟩ (memberSpec "a" 0), .restartChild ⟨2⟩ "a" .normal]

theorem nested_regular : Guarded call (fun s request => request.Regular s) ⟨.new, .new⟩ nested := by
  refine ⟨?_, ?_, trivial, trivial, trivial⟩
  · show (0 : UInt64).toNat < u64Max
    decide
  · show (saturatingAdd 0 1).toNat < u64Max
    decide

theorem nested_child : ChildOf (after .new nested).system ⟨1⟩ ⟨2⟩ := by
  have placed : (after .new nested).system.supervisors[(⟨2⟩ : VmSupervisorId)]?.map
      (·.parentId) = some (some ⟨1⟩) := by decide +kernel
  exact Option.map_eq_some_iff.mp placed

theorem restart_failed_supervisor_nested :
    ∃ parent, (after .new nested).system.supervisors[(⟨1⟩ : VmSupervisorId)]? = some parent ∧
      ∃ result, RestartsSubtrees (after .new nested) ⟨1⟩ parent (selectSupervisors parent.policy
          ((after .new nested).system.childSupervisors ⟨1⟩) ⟨2⟩) result ∧
        (restartFailedSupervisor 3 ⟨2⟩ .normal).call (after .new nested) = result := by
  obtain ⟨_, _, parent, found, result, restarts, deep⟩ :=
    (restart_failed_supervisor VmProcessTable.sound_new nested_regular ⟨2⟩ .normal).1 ⟨1⟩
      nested_child
  exact ⟨parent, found, result, restarts, deep 3 (by decide +kernel)⟩

/-- `matches!(state, VmSupervisorState::Running)`. -/
def VmSupervisorState.isRunning : VmSupervisorState → Bool
  | .running => true
  | _ => false

/-- The parent is outside the subtrees, and it is set running. -/
theorem restart_failed_supervisor_fails :
    ¬ ∀ (processes : VmProcessTable) (requests : List Request) (depth : Nat)
      (failedId parentId : VmSupervisorId) (parent : VmSupervisor) (reason : VmExitReason),
      let s := after processes requests
      ChildOf s.system parentId failedId → s.system.supervisors[parentId]? = some parent →
      ∀ id : VmSupervisorId, ¬ InSubtrees s.system (selectSupervisors parent.policy
          (s.system.childSupervisors parentId) failedId) id →
        ((restartFailedSupervisor depth failedId reason).call s).1.system.supervisors[id]? =
          s.system.supervisors[id]? := by
  intro every
  have healthy : Healthy (after .new nested) :=
    healthy_after VmProcessTable.sound_new nested_regular
  obtain ⟨parent, found⟩ : ∃ parent,
      (after .new nested).system.supervisors[(⟨1⟩ : VmSupervisorId)]? = some parent :=
    Option.isSome_iff_exists.mp (by decide +kernel)
  have same := every .new nested 3 ⟨2⟩ ⟨1⟩ parent .normal nested_child found ⟨1⟩ ?_
  · have states := congrArg (Option.map fun s => s.state.isRunning) same
    revert states
    decide +kernel
  · rintro ⟨root, listed, under⟩
    have sub := selectSupervisors_sublist parent.policy
      ((mem_childSupervisors healthy.tree).mpr nested_child)
    have forest := tree_forest healthy.tree
    exact absurd (forest.rank_le ((under_iff healthy).mpr under))
      (Nat.not_le.mpr (forest.rises ⟨1⟩ root (sub.subset listed)))

end Terlan.Supervision
