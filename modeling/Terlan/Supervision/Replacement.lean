/-
  Rebuilding a supervisor: the process of each child ends, and a new one takes its place.
-/
import Terlan.Process.TableSpec
import Terlan.Supervision.Records

namespace Terlan.Supervision

open Terlan.Lib Terlan.ActorDirectory Terlan.Process ChildCell VmProcessTable List Function
open Std (ExtTreeMap)

/-! ## Processes -/

/-- What the exits of some processes, and new processes, do to a process table. -/
structure Evolves (olds : VmProcessId → Prop) (table table' : VmProcessTable) : Prop where
  sound : table'.Sound
  actor : ∀ (pid : VmProcessId) (actor : VmActor), table.view pid = some actor →
    ∃ actor', table'.view pid = some actor' ∧
      (actor.lifecycle = .retired → actor'.lifecycle = .retired) ∧
      (actor.lifecycle ≠ .executing → actor'.lifecycle ≠ .executing) ∧ (¬ olds pid → actor' = actor)

section Processes

variable {olds olds' : VmProcessId → Prop} {table table' table'' : VmProcessTable}
  {pid old : VmProcessId} {reason : VmExitReason} {source : VmProcessSource}

theorem Evolves.of_view_eq (sound : table'.Sound) (same : table'.view = table.view) :
    Evolves olds table table' :=
  ⟨sound, fun _ actor found => ⟨actor, same ▸ found, id, id, fun _ => rfl⟩⟩

theorem Evolves.refl (sound : table.Sound) : Evolves olds table table := .of_view_eq sound rfl

theorem Evolves.weaken (h : Evolves olds table table') (imp : ∀ other, olds other → olds' other) :
    Evolves olds' table table' := by
  refine ⟨h.sound, fun pid actor found => ?_⟩
  obtain ⟨actor', found', retired, idle, same⟩ := h.actor pid actor found
  exact ⟨actor', found', retired, idle, fun other => same fun own => other (imp pid own)⟩

theorem Evolves.trans (h : Evolves olds table table') (h' : Evolves olds table' table'') :
    Evolves olds table table'' := by
  refine ⟨h'.sound, fun pid actor found => ?_⟩
  obtain ⟨actor', found', retired, idle, same⟩ := h.actor pid actor found
  obtain ⟨last, foundLast, retired', idle', same'⟩ := h'.actor pid actor' found'
  exact ⟨last, foundLast, fun h => retired' (retired h),
    fun h => idle' (idle h), fun other => (same' other).trans (same other)⟩

/-- No process is taken out of the table. -/
theorem Evolves.none_before (h : Evolves olds table table') (absent : table'.view pid = none) :
    table.view pid = none := by
  cases found : table.view pid with
  | none => rfl
  | some actor =>
    obtain ⟨actor', found', _⟩ := h.actor pid actor found
    rw [absent] at found'
    cases found'

/-- A process cannot be ended when it is not in the table, or a worker executes it. -/
def Held (table : VmProcessTable) (pid : VmProcessId) : Prop :=
  table.view pid = none ∨ table.Executes pid

theorem Evolves.held (h : Evolves olds table table') (held : Held table' pid) : Held table pid := by
  cases found : table.view pid with
  | none => exact .inl found
  | some actor =>
    obtain ⟨actor', found', _, idle, _⟩ := h.actor pid actor found
    rcases held with absent | ⟨executing, present, busy⟩
    · rw [absent] at found'
      cases found'
    · cases found'.symm.trans present
      exact .inr ⟨actor, found, Decidable.byContradiction fun other => idle other busy⟩

/-- The process has been ended. -/
def Ended (table : VmProcessTable) (pid : VmProcessId) : Prop :=
  ∃ actor, table.view pid = some actor ∧ actor.lifecycle = .retired

theorem Evolves.ended (h : Evolves olds table table') (ended : Ended table pid) :
    Ended table' pid := by
  obtain ⟨actor, found, over_⟩ := ended
  obtain ⟨actor', found', retired, _⟩ := h.actor pid actor found
  exact ⟨actor', found', retired over_⟩

/-- A process that has been ended. -/
theorem Evolves.of_exit {pending : List (VmPublishedFragment VmMessage)} {process : VmProcess}
    (becomes : table.Becomes old ⟨process, pending, .retired⟩ table') :
    Evolves (· = old) table table' ∧ Ended table' old := by
  refine ⟨⟨becomes.sound, fun pid other found' => ?_⟩, _,
    by rw [becomes.view, update_self], rfl⟩
  rw [becomes.view, update_apply]
  split
  next eq =>
    cases eq
    exact ⟨_, rfl, fun _ => rfl, fun _ => VmActorLifecycle.noConfusion,
      fun other => absurd rfl other⟩
  next => exact ⟨other, found', id, id, fun _ => rfl⟩

theorem exitUnlessExited_cases (sound : table.Sound) :
    (∃ text, (exitUnlessExited old reason).call table =
        (table, .error (.returned text)) ∧ Held table old) ∨
      ∃ table', (exitUnlessExited old reason).call table = (table', .ok ()) ∧
        Evolves (· = old) table table' ∧ Ended table' old := by
  unfold exitUnlessExited
  rw [call_get_bind, call_ite]
  by_cases exited : (table.get old).any (·.state.isExited) = true
  · rw [if_pos exited]
    rw [get_eq_view, Option.any_map, Option.any_eq_true] at exited
    obtain ⟨actor, found, exited⟩ := exited
    exact .inr ⟨table, rfl, .refl sound, actor, found, (sound.exited old actor found).mpr exited⟩
  · rw [if_neg exited, call_bind, call_orReturn]
    rcases sound.exitProcess_cases old reason with
      ⟨text, run, refused⟩ | ⟨table', actor, run, found, live, becomes⟩
    · rw [run]
      refine .inl ⟨text, rfl, ?_⟩
      cases found : table.view old with
      | none => exact .inl found
      | some actor =>
        rcases mem_pair.mp (refused actor found) with executing | retired
        · exact .inr ⟨actor, found, executing⟩
        · refine absurd ?_ exited
          rw [get_eq_view, found]
          exact (sound.exited old actor found).mp retired
    · rw [run]
      exact .inr ⟨table', rfl, Evolves.of_exit becomes⟩

/-- The panic of a spawn that finds no free slot. -/
def outOfProcesses : Fault String :=
  .panicked "new process identity must have a free actor directory slot"

theorem spawnRoot_cases (sound : table.Sound) (source : VmProcessSource) :
    (∃ table', (spawnRoot source).call table = (table', .error outOfProcesses) ∧
        Evolves olds table table') ∨
      ∃ table' pid, (spawnRoot source).call table = (table', .ok pid) ∧
        Evolves olds table table' ∧ table.view pid = none ∧
        table'.view pid = some ⟨.new pid none source, [], .yielding⟩ := by
  have text : ∀ e, ((spawnRoot source).call table).2 = .error e →
      e = outOfProcesses := by
    unfold spawnRoot spawn
    rw [call_modify_bind, call_get_bind, call_bind, call_expect]
    rcases Method.call (owned (.ofCall (·.insert _ _))) _ with ⟨after, e | handle⟩
    · intro e' failed
      cases failed
      rfl
    · intro e' failed
      cases failed
  rcases sound.spawn_cases none source with
    ⟨_, after, run, sound', same⟩ | ⟨after, pid, run, fresh, becomes⟩
  · refine .inl ⟨after, ?_, .of_view_eq sound' same⟩
    have run : (spawnRoot source).call table = _ := run
    rw [run, text _ (congrArg Prod.snd run)]
  refine .inr ⟨after, pid, run, ⟨becomes.sound, fun other actor found => ?_⟩, fresh, ?_⟩
  · have ne : other ≠ pid := fun eq => by
      rw [eq, fresh] at found
      cases found
    exact ⟨actor, by rw [becomes.view, update_of_ne ne, found], id, id, fun _ => rfl⟩
  · rw [becomes.view, update_self]

end Processes

/-! ## Children -/

/-- A child of which a new process has taken the place of the old one. -/
def rebuiltChild (child : VmSupervisorChild) (pid : VmProcessId) : VmSupervisorChild :=
  { child with pid, restartCount := 0, lastRestartDelayMs := 0, lastShutdownTimeoutMs := none }

/-- The process of the child has ended, and another one has been started from its source. -/
structure Replaced (olds : VmProcessId → Prop) (table table' : VmProcessTable)
    (child : VmSupervisorChild) (pid : VmProcessId) : Prop where
  ended : Ended table' child.pid
  fresh : table.view pid = none
  started : ∃ actor, table'.view pid = some actor ∧
    (¬ olds pid → actor = ⟨.new pid none child.spec.source, [], .yielding⟩)

/-- Why a child may not be replaced. -/
def Excuse (table : VmProcessTable) (pid : VmProcessId) (e : Fault String) : Prop :=
  e = outOfProcesses ∨ Held table pid ∧ ∃ text, e = .returned text

variable {olds : VmProcessId → Prop} {table table' table'' : VmProcessTable} {reason : VmExitReason}
  {child : VmSupervisorChild} {pid : VmProcessId}

theorem Replaced.later (h : Replaced olds table table' child pid)
    (evolves : Evolves olds table' table'') : Replaced olds table table'' child pid := by
  obtain ⟨actor, found, same⟩ := h.started
  obtain ⟨actor', found', _, _, still⟩ := evolves.actor pid actor found
  exact ⟨evolves.ended h.ended, h.fresh, actor', found',
    fun other => (still other).trans (same other)⟩

theorem Replaced.earlier (h : Replaced olds table' table'' child pid)
    (evolves : Evolves olds table table') : Replaced olds table table'' child pid :=
  ⟨h.ended, evolves.none_before h.fresh, h.started⟩

theorem Excuse.earlier {e : Fault String} (h : Excuse table' pid e)
    (evolves : Evolves olds table table') : Excuse table pid e :=
  h.imp_right fun held => ⟨evolves.held held.1, held.2⟩

theorem rebuildMember_cases {cell : ChildCell} (sound : cell.processes.Sound) (childId : String)
    (own : olds cell.child.pid) : (∃ table e, (rebuildMember reason childId).call cell =
        (⟨cell.child, table⟩, .error e) ∧ Evolves olds cell.processes table ∧
        Excuse cell.processes cell.child.pid e) ∨
      ∃ table pid event, (rebuildMember reason childId).call cell =
          (⟨rebuiltChild cell.child pid, table⟩, .ok (some event)) ∧
        Evolves olds cell.processes table ∧ Replaced olds cell.processes table cell.child pid := by
  unfold rebuildMember
  rw [call_get_bind, call_bind, call_onProcesses]
  rcases @exitUnlessExited_cases _ cell.child.pid reason sound with
    ⟨text, run, held⟩ | ⟨table, run, evolves, ended⟩
  · rw [run]
    exact .inl ⟨cell.processes, _, rfl, .refl sound, .inr ⟨held, text, rfl⟩⟩
  rw [run]
  have evolves : Evolves olds cell.processes table := evolves.weaken fun pid eq => eq ▸ own
  dsimp only
  unfold respawn
  rw [call_bind, call_get_bind, call_bind, call_onProcesses]
  rcases @spawnRoot_cases olds _ evolves.sound cell.child.spec.source with
    ⟨table', run', evolves'⟩ | ⟨table', pid, run', evolves', fresh, started⟩
  · rw [run']
    exact .inl ⟨table', _, rfl, evolves.trans evolves', .inl rfl⟩
  · rw [run']
    exact .inr ⟨table', pid, _, rfl, evolves.trans evolves', evolves'.ended ended,
      evolves.none_before fresh, _, started, fun _ => rfl⟩

/-! ## A supervisor -/

/-- Each of these children has been replaced, and nothing else of them has been lost. -/
def AllReplaced (olds : VmProcessId → Prop) (childIds : List String) (before after : SupervisorCell) :
    Prop :=
  ∀ childId ∈ childIds, ∀ child, before.supervisor.children[childId]? = some child →
    ∃ pid, after.supervisor.children[childId]? = some (rebuiltChild child pid) ∧
      Replaced olds before.processes after.processes child pid

/-- How a call ends. -/
def Ends {α : Type} (well : Prop) (badly : Fault String → Prop) : Except (Fault String) α → Prop
  | .ok _ => well
  | .error e => badly e

/-- A loop that replaces different children. -/
theorem eachChild_rebuild {childIds : List String} (distinct : childIds.Nodup)
    {cell : SupervisorCell} (sound : cell.processes.Sound)
    (listed : ∀ childId ∈ childIds, childId ∈ cell.supervisor.children)
    (own : ∀ childId ∈ childIds, ∀ pid, cell.supervisor.pidOf childId = some pid → olds pid) :
    let after := (SupervisorCell.eachChild (rebuildMember reason) childIds).call cell
    Evolves olds cell.processes after.1.processes ∧
      Ends (AllReplaced olds childIds cell after.1)
        (fun e => ∃ childId ∈ childIds, ∃ pid, cell.supervisor.pidOf childId = some pid ∧
          Excuse cell.processes pid e) after.2 := by
  induction childIds generalizing cell with
  | nil => exact ⟨.refl sound, fun _ member => absurd member not_mem_nil⟩
  | cons childId rest ih =>
    obtain ⟨fresh, distinctRest⟩ := nodup_cons.mp distinct
    obtain ⟨child, found⟩ := Option.isSome_iff_exists.mp
      (ExtTreeMap.mem_iff_isSome_getElem?.mp (listed childId mem_cons_self))
    have named : cell.supervisor.pidOf childId = some child.pid := by
      rw [VmSupervisor.pidOf, found]
      rfl
    unfold SupervisorCell.eachChild
    rw [call_bind, call_atChild found]
    rcases @rebuildMember_cases olds reason ⟨child, cell.processes⟩ sound childId
      (own childId mem_cons_self _ named) with
      ⟨table, e, run, evolves, excuse⟩ | ⟨table, pid, event, run, evolves, replaced⟩
    · rw [run]
      exact ⟨evolves, childId, mem_cons_self, _, named, excuse⟩
    rw [run]
    dsimp only
    rw [call_bind]
    have kept : KeptBut [childId] cell.supervisor _ :=
      @keptBut_insert _ childId child (rebuiltChild child pid) found rfl
    have others : ∀ other ∈ rest, other ∉ [childId] := fun other member same =>
      fresh (mem_singleton.mp same ▸ member)
    obtain ⟨evolvesRest, ends⟩ := @ih distinctRest ⟨_, table⟩ evolves.sound
      (fun other member => (kept.mem other).mpr (listed other (mem_cons_of_mem _ member)))
      (fun other member pid' running => own other (mem_cons_of_mem _ member) pid'
        ((kept.pidOf (others other member)).symm.trans running))
    have earlier := evolves.trans evolvesRest
    revert evolvesRest ends earlier
    rcases run' : (SupervisorCell.eachChild (rebuildMember reason) rest).call _ with
      ⟨last, e | events⟩
    · rintro evolvesRest ⟨other, member, pid', running, excuse⟩ earlier
      exact ⟨earlier, other, mem_cons_of_mem _ member, pid',
        (kept.pidOf (others other member)).symm.trans running, excuse.earlier evolves⟩
    intro evolvesRest each earlier
    refine ⟨earlier, forall_mem_cons.mpr ⟨fun child' found' => ?_, ?_⟩⟩
    · cases found.symm.trans found'
      have kept' := (eachChild_names
        (fun childId cell => @rebuildMember_reports cell reason childId) distinctRest
        ⟨{ cell.supervisor with
          children := cell.supervisor.children.insert childId (rebuiltChild child pid) },
          table⟩).1
      rw [run'] at kept'
      exact ⟨pid, (kept'.others childId fresh).trans (getElem?_insert_self_eq _ _ _),
        replaced.later evolvesRest⟩
    · intro other member child' found'
      obtain ⟨pid', after, replaced'⟩ := each other member child'
        ((kept.others other (others other member)).trans found')
      exact ⟨pid', after, replaced'.earlier evolves⟩

/-- A supervisor of which every child has been replaced. -/
structure RebuiltFrom (olds : VmProcessId → Prop) (before after : SupervisorCell) : Prop extends
    Kept before.supervisor after.supervisor where
  state : after.supervisor.state = .running
  children : ∀ (childId : String) (child : VmSupervisorChild),
    before.supervisor.children[childId]? = some child →
    ∃ pid, after.supervisor.children[childId]? = some (rebuiltChild child pid) ∧
      Replaced olds before.processes after.processes child pid

theorem RebuiltFrom.later {before after : VmSupervisor}
    (h : RebuiltFrom olds ⟨before, table⟩ ⟨after, table'⟩) (evolves : Evolves olds table' table'') :
    RebuiltFrom olds ⟨before, table⟩ ⟨after, table''⟩ := by
  refine ⟨h.toKept, h.state, fun childId child found => ?_⟩
  obtain ⟨pid, found', replaced⟩ := h.children childId child found
  exact ⟨pid, found', replaced.later evolves⟩

theorem RebuiltFrom.earlier {before after : VmSupervisor}
    (h : RebuiltFrom olds ⟨before, table'⟩ ⟨after, table''⟩) (evolves : Evolves olds table table') :
    RebuiltFrom olds ⟨before, table⟩ ⟨after, table''⟩ := by
  refine ⟨h.toKept, h.state, fun childId child found => ?_⟩
  obtain ⟨pid, found', replaced⟩ := h.children childId child found
  exact ⟨pid, found', replaced.earlier evolves⟩

theorem rebuild_cases {cell : SupervisorCell} (sound : cell.processes.Sound)
    (ordered : Ordered cell.supervisor)
    (own : ∀ childId pid, cell.supervisor.pidOf childId = some pid → olds pid) :
    let after := (SupervisorCell.rebuild reason).call cell
    Kept cell.supervisor after.1.supervisor ∧ Evolves olds cell.processes after.1.processes ∧
      Ends (RebuiltFrom olds cell after.1)
        (fun e => ∃ childId pid, cell.supervisor.pidOf childId = some pid ∧
          Excuse cell.processes pid e) after.2 := by
  have kept := (@rebuild_writes cell reason ordered.distinct).toKept
  refine ⟨kept, ?_⟩
  revert kept
  unfold SupervisorCell.rebuild
  rw [call_get_bind, call_ite]
  split
  next empty =>
    intro kept
    refine ⟨.refl sound, kept, rfl, fun childId child found => ?_⟩
    have listed := (ordered.listed childId).mpr
      (ExtTreeMap.mem_iff_isSome_getElem?.mpr (Option.isSome_iff_exists.mpr ⟨child, found⟩))
    rw [empty] at listed
    cases listed
  next =>
    obtain ⟨evolves, ends⟩ := @eachChild_rebuild olds reason _ ordered.distinct cell sound
      (fun childId listed => (ordered.listed childId).mp listed) fun childId _ => own childId
    rw [call_bind]
    revert evolves ends
    rcases (SupervisorCell.eachChild (rebuildMember reason)
      cell.supervisor.childOrder).call cell with ⟨last, e | events⟩
    · rintro evolves ⟨childId, _, pid, running, excuse⟩ _
      exact ⟨evolves, childId, pid, running, excuse⟩
    intro evolves each kept
    refine ⟨evolves, kept, rfl, fun childId child found => ?_⟩
    exact each childId ((ordered.listed childId).mpr (ExtTreeMap.mem_iff_isSome_getElem?.mpr
      (Option.isSome_iff_exists.mpr ⟨child, found⟩))) child found

/-! ## Every method leaves a sound table -/

theorem keeps_exitUnlessExited (pid : VmProcessId) (reason : VmExitReason) :
    Keeps VmProcessTable.Sound (exitUnlessExited pid reason) := by
  intro table sound
  rcases @exitUnlessExited_cases table pid reason sound with
    ⟨text, run, _⟩ | ⟨table', run, evolves, _⟩
  · rw [run]
    exact sound
  · rw [run]
    exact evolves.sound

theorem keeps_spawnRoot (source : VmProcessSource) :
    Keeps VmProcessTable.Sound (spawnRoot source) := by
  intro table sound
  rcases @spawnRoot_cases (fun _ => True) table sound source with
    ⟨table', run, evolves⟩ | ⟨table', pid, run, evolves, _⟩
  · rw [run]
    exact evolves.sound
  · rw [run]
    exact evolves.sound

namespace ChildCell

abbrev Sound (cell : ChildCell) : Prop := cell.processes.Sound

theorem keeps_onProcesses {α : Type} {m : Method (Fault String) VmProcessTable α}
    (h : Keeps VmProcessTable.Sound m) : Keeps Sound (onProcesses m) :=
  leads_within fun cell => h cell.processes

theorem keeps_modifyChild (f : VmSupervisorChild → VmSupervisorChild) :
    Keeps Sound (modifyChild f) := leads_modify fun _ sound => sound

theorem keeps_respawn : Keeps Sound respawn :=
  keeps_get_bind fun cell => keeps_bind (keeps_onProcesses (keeps_spawnRoot cell.child.spec.source))
    fun _ => keeps_bind (keeps_modifyChild _) fun _ => keeps_pure _

theorem keeps_restartOneForOneChild : Keeps Sound (restartOneForOneChild reason) := by
  refine keeps_get_bind fun cell => ?_
  refine keeps_bind (keeps_onProcesses (keeps_exitUnlessExited _ reason)) fun _ => ?_
  refine keeps_bind (keeps_modifyChild _) fun _ => ?_
  refine leads_ite (fun _ => keeps_pure _) fun _ => leads_ite (fun _ => keeps_pure _) fun _ => ?_
  refine keeps_bind (keeps_modifyChild _) fun _ => keeps_bind keeps_respawn fun _ => ?_
  exact keeps_get_bind fun _ => keeps_pure _

theorem keeps_restartMember (childId : String) : Keeps Sound (restartMember reason childId) := by
  refine keeps_get_bind fun cell => ?_
  refine keeps_bind (keeps_onProcesses (keeps_exitUnlessExited _ reason)) fun _ => ?_
  refine keeps_bind (keeps_modifyChild _) fun _ => ?_
  refine leads_ite (fun _ => keeps_pure _) fun _ => ?_
  refine keeps_bind (keeps_modifyChild _) fun _ => keeps_bind keeps_respawn fun _ => ?_
  exact keeps_get_bind fun _ => keeps_pure _

theorem keeps_rebuildMember (childId : String) : Keeps Sound (rebuildMember reason childId) := by
  refine keeps_get_bind fun cell => ?_
  refine keeps_bind (keeps_onProcesses (keeps_exitUnlessExited _ reason)) fun _ => ?_
  exact keeps_bind keeps_respawn fun _ => keeps_bind (keeps_modifyChild _) fun _ => keeps_pure _

end ChildCell

namespace SupervisorCell

abbrev Sound (cell : SupervisorCell) : Prop := cell.processes.Sound

theorem keeps_atChild {α : Type} {missing : Fault String} {childId : String} {m : ChildM α}
    (h : Keeps ChildCell.Sound m) : Keeps Sound (atChild missing childId m) := by
  refine keeps_get_bind fun cell => ?_
  split
  next => exact keeps_throw _
  next child _ => exact leads_within fun cell => h ⟨child, cell.processes⟩

theorem keeps_eachChild {m : String → ChildM (Option VmSupervisionRestartEvent)}
    (h : ∀ childId, Keeps ChildCell.Sound (m childId)) (childIds : List String) :
    Keeps Sound (eachChild m childIds) := by
  induction childIds with
  | nil => exact keeps_pure _
  | cons childId rest ih =>
    exact keeps_bind (keeps_atChild (h childId)) fun _ => keeps_bind ih fun _ => keeps_pure _

theorem keeps_restartChildGroup (childIds : List String) :
    Keeps Sound (restartChildGroup childIds reason) := by
  refine keeps_get_bind fun cell => keeps_bind (keeps_lift _) fun limited => ?_
  cases limited with
  | some child => exact keeps_pure _
  | none => exact keeps_bind (keeps_eachChild keeps_restartMember _) fun _ => keeps_pure _

theorem keeps_applyPolicy (childId : String) : Keeps Sound (applyPolicy childId reason) := by
  refine keeps_get_bind fun cell => ?_
  dsimp only
  split
  · exact keeps_atChild keeps_restartOneForOneChild
  · exact keeps_bind (keeps_lift _) fun _ => keeps_restartChildGroup _
  exact keeps_bind (keeps_lift _) fun _ => keeps_bind (keeps_lift _) fun _ =>
    keeps_restartChildGroup _

theorem keeps_modifySupervisor (f : VmSupervisor → VmSupervisor) :
    Keeps Sound (modifySupervisor f) := leads_modify fun _ sound => sound

theorem keeps_restartChild (childId : String) : Keeps Sound (restartChild childId reason) := by
  refine keeps_bind (keeps_applyPolicy childId) fun restart => ?_
  refine keeps_bind (keeps_modifySupervisor _) fun _ => ?_
  cases restart with
  | limitReached pid count =>
    exact keeps_bind (keeps_modifySupervisor _) fun _ => keeps_get_bind fun _ => keeps_pure _
  | _ => exact keeps_pure _

theorem keeps_restartAfterBackoff (childId : String) :
    Keeps Sound (Supervised.restartAfterBackoff childId reason) :=
  keeps_bind (keeps_atChild keeps_restartOneForOneChild) fun _ =>
    keeps_bind (keeps_modifySupervisor _) fun _ => keeps_pure _

theorem keeps_startChildUnder (spec : VmChildSpec) :
    Keeps Sound (Supervised.startChildUnder spec) := by
  refine keeps_get_bind fun cell => keeps_bind (keeps_lift _) fun _ => ?_
  refine keeps_bind (leads_within fun cell => keeps_spawnRoot spec.source cell.processes) fun _ => ?_
  exact keeps_bind (keeps_modifySupervisor _) fun _ => keeps_pure _

theorem keeps_rebuild : Keeps Sound (rebuild reason) := by
  refine keeps_get_bind fun cell => leads_ite (fun _ => keeps_modifySupervisor _) fun _ => ?_
  exact keeps_bind (keeps_eachChild keeps_rebuildMember _) fun _ =>
    keeps_modifySupervisor _

end SupervisorCell

end Terlan.Supervision
