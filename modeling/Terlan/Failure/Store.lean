/-
  What the failure runtime remembers is about live processes only. An exit forgets its
  process in all four stores before anybody else exits, so that a run that is stopped by a
  panic in the middle of a cascade leaves nothing behind either.
-/
import Terlan.Failure.Runtime

namespace Terlan.Failure

open Terlan.Lib Terlan.ActorDirectory Terlan.Process Terlan.TermFormat VmProcessTable List Function
open Std (ExtTreeMap ExtTreeSet)
open Failing

/-! ## Requests -/

def VmTrapExitError.text : VmTrapExitError → String
  | .missingProcess pid => s!"cannot inspect trap exits for missing process {pid.value}"
  | .exitedProcess pid => s!"cannot inspect trap exits for exited process {pid.value}"

/-- Operations of the failure runtime, and operations on the process table that end nobody. -/
inductive Request where
  | link (left right : VmProcessId)
  | linkWithPriority (left right : VmProcessId) (priority : Bool)
  | unlink (left right : VmProcessId)
  | setTrapExits (pid : VmProcessId) (enabled : Bool)
  | monitor (watcher target : VmProcessId)
  | monitorWithPriority (watcher target : VmProcessId) (priority : Bool)
  | monitorOrComplete (watcher target : VmProcessId) (priority : Bool)
  | demonitor (monitorRef : VmMonitorRef)
  | demonitorFor (watcher : VmProcessId) (monitorRef : VmMonitorRef)
  | demonitorForId (watcher : VmProcessId) (monitorId : UInt64)
  | exitProcess (pid : VmProcessId) (reason : VmExitReason)
  | spawnRoot (source : VmProcessSource)
  | spawnChild (parent : VmProcessId) (source : VmProcessSource)
  | reapExited (pid : VmProcessId)
  | send (sender recipient : VmProcessId) (delivery : VmMessageDelivery)
  | receiveNext (pid : VmProcessId)
  | markActorQueued (pid : VmProcessId)
  | acquireActorMutator (pid : VmProcessId) (owner : UInt64)
  | integrateActorMailbox (token : VmActorMutatorToken) (issued : token.owner ≠ 0)
  | releaseActorMutator (token : VmActorMutatorToken) (issued : token.owner ≠ 0)
      (next : VmActorLifecycle)

inductive Answer where
  | done
  | trapExits (update : VmTrapExitUpdate)
  | monitored (monitorRef : VmMonitorRef)
  | registered (registration : VmMonitorRegistration)
  | demonitored (removed : Bool)
  | exited (report : VmFailureReport)
  | spawned (pid : VmProcessId)
  | message (id : UInt64)
  | granted (token : VmActorMutatorToken)
  | integrated (count : Nat)
  | given (lifecycle : VmActorLifecycle)

def Request.perform : Request → Method (Fault String) Failing Answer
  | .link left right => (fun _ => .done) <$> (Failure.link left right).orReturn
  | .linkWithPriority left right priority =>
    (fun _ => .done) <$> (Failure.linkWithPriority left right priority).orReturn
  | .unlink left right => (fun _ => .done) <$> self (·.unlink left right)
  | .setTrapExits pid enabled =>
    .trapExits <$> ((Failure.setTrapExits pid enabled).mapError (·.text)).orReturn
  | .monitor watcher target => .monitored <$> (Failure.monitor watcher target).orReturn
  | .monitorWithPriority watcher target priority =>
    .monitored <$> (Failure.monitorWithPriority watcher target priority).orReturn
  | .monitorOrComplete watcher target priority =>
    .registered <$> (monitorOrCompleteWithPriority watcher target priority).orReturn
  | .demonitor monitorRef => .demonitored <$> (Failure.demonitor monitorRef).orReturn
  | .demonitorFor watcher monitorRef =>
    .demonitored <$> (Failure.demonitorFor watcher monitorRef).orReturn
  | .demonitorForId watcher monitorId =>
    .demonitored <$> (Failure.demonitorForId watcher monitorId).orReturn
  | .exitProcess pid reason => .exited <$> Failure.exitProcess pid reason
  | .spawnRoot source => .spawned <$> table (VmProcessTable.spawnRoot source)
  | .spawnChild parent source => .spawned <$> table (VmProcessTable.spawnChild parent source)
  | .reapExited pid => (fun _ => .done) <$> (table (VmProcessTable.reapExited pid)).orReturn
  | .send sender recipient delivery =>
    .message <$> (table (VmProcessTable.sendDelivery sender recipient delivery)).orReturn
  | .receiveNext pid =>
    (fun _ => .done) <$> (table (VmProcessTable.updateProcess pid (·.receiveNext.1))).orReturn
  | .markActorQueued pid =>
    (fun _ => .done) <$> (table (VmProcessTable.markActorQueued pid)).orReturn
  | .acquireActorMutator pid owner =>
    .granted <$> (table (VmProcessTable.acquireActorMutator pid owner)).orReturn
  | .integrateActorMailbox token _ =>
    .integrated <$> (table (VmProcessTable.integrateActorMailbox token)).orReturn
  | .releaseActorMutator token _ next =>
    .given <$> (table (VmProcessTable.releaseActorMutator token next)).orReturn

def call (s : Failing) (request : Request) : Failing × Except (Fault String) Answer :=
  request.perform.call s

/-! ## Links -/

variable (left right : VmProcessId)

theorem canonicalLink_comm : canonicalLink left right = canonicalLink right left := by
  unfold canonicalLink
  by_cases below : left.value ≤ right.value
  · rw [if_pos below]
    by_cases above : right.value ≤ left.value
    · rw [if_pos above, VmProcessId.ext_value (UInt64.le_antisymm below above)]
    · rw [if_neg above]
  · rw [if_neg below, if_pos (UInt64.le_of_lt (UInt64.not_le.mp below))]

theorem canonicalLink_cases :
    canonicalLink left right = (left, right) ∨ canonicalLink left right = (right, left) := by
  unfold canonicalLink
  split
  next => exact .inl rfl
  next => exact .inr rfl

theorem canonicalLink_idem :
    canonicalLink (canonicalLink left right).1 (canonicalLink left right).2 =
      canonicalLink left right := by
  rcases canonicalLink_cases left right with same | same
  · rw [same]
    exact same
  · rw [same, ← canonicalLink_comm]
    exact same

theorem isLinked_comm (self : VmFailureRuntime) (left right : VmProcessId) :
    self.isLinked left right = self.isLinked right left := by
  unfold VmFailureRuntime.isLinked
  rw [canonicalLink_comm]

theorem touches_canonicalLink (pid left right : VmProcessId) :
    touches pid (canonicalLink left right) = touches pid (left, right) := by
  rcases canonicalLink_cases left right with same | same
  · rw [same]
  · rw [same]
    exact Bool.or_comm _ _

/-! ## Who is mentioned -/

/-- The processes in the stores are known, links are stored in canonical order, and each
priority link is a link. -/
structure VmFailureRuntime.Mentions (failures : VmFailureRuntime) (known : VmProcessId → Prop) :
    Prop where
  links : ∀ link ∈ failures.links,
    canonicalLink link.1 link.2 = link ∧ known link.1 ∧ known link.2
  priority : ∀ link ∈ failures.priorityLinks, canonicalLink link.1 link.2 ∈ failures.links
  monitors : ∀ (monitorRef : VmMonitorRef) (monitor : VmMonitor),
    failures.monitors[monitorRef]? = some monitor → known monitor.watcher ∧ known monitor.target
  trapExits : ∀ pid ∈ failures.trapExits, known pid

/-- A process is gone from all stores. -/
def VmFailureRuntime.forget (self : VmFailureRuntime) (pid : VmProcessId) : VmFailureRuntime where
  links := self.links.filter fun link => !touches pid link
  priorityLinks := self.priorityLinks.filter fun link => !touches pid link
  monitors := self.monitors.filter fun _ monitor => monitor.watcher ≠ pid ∧ monitor.target ≠ pid
  trapExits := self.trapExits.erase pid

/-- The failure runtime knows live processes only. -/
structure Clean (s : Failing) : Prop where
  sound : s.processes.Sound
  mentions : s.failures.Mentions fun pid => s.processes.isAlive pid = true

namespace VmFailureRuntime.Mentions

variable {self : VmFailureRuntime} {known known' : VmProcessId → Prop} {pid : VmProcessId}

theorem mono (h : self.Mentions known) (more : ∀ pid, known pid → known' pid) :
    self.Mentions known' where
  links link mem := by
    obtain ⟨canonical, left, right⟩ := h.links link mem
    exact ⟨canonical, more _ left, more _ right⟩
  priority := h.priority
  monitors monitorRef monitor found := by
    obtain ⟨watcher, target⟩ := h.monitors monitorRef monitor found
    exact ⟨more _ watcher, more _ target⟩
  trapExits pid mem := more pid (h.trapExits pid mem)

/-- Without a process, everybody else is mentioned. -/
theorem forget (h : self.Mentions known) (others : ∀ other, other ≠ pid → known other → known' other) :
    (self.forget pid).Mentions known' where
  links link mem := by
    obtain ⟨mem, apart⟩ := (mem_set_filter_iff _ _ _).mp mem
    obtain ⟨canonical, left, right⟩ := h.links link mem
    have apart : ¬ (link.1 = pid ∨ link.2 = pid) := by simpa [touches] using apart
    obtain ⟨notLeft, notRight⟩ := not_or.mp apart
    exact ⟨canonical, others _ notLeft left, others _ notRight right⟩
  priority link mem := by
    obtain ⟨mem, apart⟩ := (mem_set_filter_iff _ _ _).mp mem
    refine (mem_set_filter_iff _ _ _).mpr ⟨h.priority link mem, ?_⟩
    rw [touches_canonicalLink]
    exact apart
  monitors monitorRef monitor found := by
    obtain ⟨found, apart⟩ := (getElem?_filter_eq_some_iff _ _ _ _).mp found
    obtain ⟨watcher, target⟩ := h.monitors monitorRef monitor found
    obtain ⟨notWatcher, notTarget⟩ := of_decide_eq_true apart
    exact ⟨others _ notWatcher watcher, others _ notTarget target⟩
  trapExits other mem := by
    obtain ⟨differs, mem⟩ := (mem_set_erase_iff _ _ _).mp mem
    exact others other (fun same => differs same.symm) (h.trapExits other mem)

end VmFailureRuntime.Mentions

/-! ## Operations on relations -/

section Relations

variable {s : Failing} {pid left right watcher target : VmProcessId}

theorem ensureLiveProcess_ok_iff {processes : VmProcessTable} {action : String} :
    ensureLiveProcess processes pid action = .ok () ↔ processes.isAlive pid = true := by
  unfold ensureLiveProcess isAlive
  cases processes.get pid with
  | none => simp
  | some process => simp [failIf_ok_iff]

theorem ensureTrapExitProcess_ok_iff {processes : VmProcessTable} :
    ensureTrapExitProcess processes pid = .ok () ↔ processes.isAlive pid = true := by
  unfold ensureTrapExitProcess isAlive
  cases processes.get pid with
  | none => simp
  | some process => simp [failIf_ok_iff]

theorem Clean.linked (h : Clean s) (priority : Bool) (alive : s.processes.isAlive left = true)
    (alive' : s.processes.isAlive right = true) :
    Clean { s with
      failures := { s.failures with
        links := s.failures.links.insert (canonicalLink left right)
        priorityLinks :=
          if priority then s.failures.priorityLinks.insert (left, right)
          else s.failures.priorityLinks.erase (left, right) } } where
  sound := h.sound
  mentions :=
    { links := fun link mem => by
        rcases (mem_set_insert_iff _ _ _).mp mem with rfl | mem
        · refine ⟨canonicalLink_idem left right, ?_⟩
          rcases canonicalLink_cases left right with same | same
          · rw [same]
            exact ⟨alive, alive'⟩
          · rw [same]
            exact ⟨alive', alive⟩
        · exact h.mentions.links link mem
      priority := fun link mem => by
        refine (mem_set_insert_iff _ _ _).mpr ?_
        cases priority with
        | true =>
          rcases (mem_set_insert_iff _ _ _).mp mem with rfl | mem
          · exact .inl rfl
          · exact .inr (h.mentions.priority link mem)
        | false => exact .inr (h.mentions.priority link ((mem_set_erase_iff _ _ _).mp mem).2)
      monitors := h.mentions.monitors
      trapExits := h.mentions.trapExits }

theorem Clean.unlinked (h : Clean s) (left right : VmProcessId) :
    Clean { s with failures := s.failures.unlink left right } where
  sound := h.sound
  mentions :=
    { links := fun link mem => h.mentions.links link ((mem_set_erase_iff _ _ _).mp mem).2
      priority := fun link mem => by
        obtain ⟨backward, mem⟩ := (mem_set_erase_iff _ _ _).mp mem
        obtain ⟨forward, mem⟩ := (mem_set_erase_iff _ _ _).mp mem
        refine (mem_set_erase_iff _ _ _).mpr ⟨fun same => ?_, h.mentions.priority link mem⟩
        -- the canonical form of the priority link is one of the two that were erased
        obtain ⟨canonical, _⟩ := h.mentions.links _ (h.mentions.priority link mem)
        rcases canonicalLink_cases left right with own | own
        · rcases canonicalLink_cases link.1 link.2 with stored | stored
          · exact forward (own.symm.trans (same.trans stored))
          · have flipped := own.symm.trans (same.trans stored)
            cases flipped
            exact backward rfl
        · rcases canonicalLink_cases link.1 link.2 with stored | stored
          · exact backward (own.symm.trans (same.trans stored))
          · have flipped := own.symm.trans (same.trans stored)
            cases flipped
            exact forward rfl
      monitors := h.mentions.monitors
      trapExits := h.mentions.trapExits }

theorem Clean.trapped (h : Clean s) (enabled : Bool) (alive : s.processes.isAlive pid = true) :
    Clean { s with
      failures := { s.failures with
        trapExits :=
          if enabled then s.failures.trapExits.insert pid else s.failures.trapExits.erase pid } }
    where
  sound := h.sound
  mentions :=
    { links := h.mentions.links
      priority := h.mentions.priority
      monitors := h.mentions.monitors
      trapExits := fun other mem => by
        cases enabled with
        | true =>
          rcases (mem_set_insert_iff _ _ _).mp mem with rfl | mem
          · exact alive
          · exact h.mentions.trapExits other mem
        | false => exact h.mentions.trapExits other ((mem_set_erase_iff _ _ _).mp mem).2 }

theorem Clean.monitored (h : Clean s) {references : VmReferenceAllocator} (monitorRef : VmMonitorRef)
    (priority : Bool) (alive : s.processes.isAlive watcher = true)
    (alive' : s.processes.isAlive target = true) :
    Clean { s with
      references
      failures := { s.failures with
        monitors := s.failures.monitors.insert monitorRef { watcher, target, priority } } } where
  sound := h.sound
  mentions :=
    { links := h.mentions.links
      priority := h.mentions.priority
      monitors := fun other monitor found => by
        rw [getElem?_insert_eq] at found
        split at found
        next =>
          cases found
          exact ⟨alive, alive'⟩
        next => exact h.mentions.monitors other monitor found
      trapExits := h.mentions.trapExits }

theorem Clean.demonitored (h : Clean s) (monitorRef : VmMonitorRef) :
    Clean { s with
      failures := { s.failures with monitors := s.failures.monitors.erase monitorRef } } where
  sound := h.sound
  mentions :=
    { links := h.mentions.links
      priority := h.mentions.priority
      monitors := fun other monitor found => by
        rw [getElem?_erase_eq] at found
        split at found
        next => cases found
        next => exact h.mentions.monitors other monitor found
      trapExits := h.mentions.trapExits }

end Relations

/-! ## Operations that end nobody -/

/-- The table stays sound, and everybody who lives goes on. -/
def Spares (before after : VmProcessTable) : Prop :=
  after.Sound ∧ ∀ pid, before.isAlive pid = true → after.isAlive pid = true

theorem Spares.refl {table : VmProcessTable} (h : table.Sound) : Spares table table :=
  ⟨h, fun _ alive => alive⟩

/-- A process that lives on. -/
theorem spares_becomes {before after : VmProcessTable} {pid : VmProcessId} {actor actor' : VmActor}
    (becomes : before.Becomes pid actor' after) (found : before.view pid = some actor)
    (same : actor'.value.state.isExited = actor.value.state.isExited) : Spares before after :=
  ⟨becomes.sound, fun other alive => (becomes.isAlive found same other).trans alive⟩

theorem spares_spawned {before after : VmProcessTable} {pid : VmProcessId} {actor : VmActor}
    (becomes : before.Becomes pid actor after) (unknown : before.view pid = none) :
    Spares before after := by
  refine ⟨becomes.sound, fun other alive => ?_⟩
  obtain ⟨actor', found, live⟩ := isAlive_iff.mp alive
  refine isAlive_iff.mpr ⟨actor', ?_, live⟩
  rw [becomes.view, update_of_ne]
  · exact found
  · rintro rfl
    rw [unknown] at found
    cases found

theorem Clean.spared {s : Failing} (h : Clean s) {processes : VmProcessTable}
    (spares : Spares s.processes processes) : Clean { s with processes } where
  sound := spares.1
  mentions := h.mentions.mono spares.2

theorem spares_sends {table : VmProcessTable} (h : table.Sound) {sender recipient : VmProcessId}
    {delivery : VmMessageDelivery} {result : VmProcessTable × Except String UInt64}
    (sends : table.Sends sender recipient delivery result) : Spares table result.1 := by
  rcases sends with ⟨e, rfl⟩ | ⟨after, actor, publication, received, rfl, found, _, _, receives,
    becomes⟩
  · exact .refl h
  refine spares_becomes becomes found ?_
  cases receives with
  | waits executing => rfl
  | arrives idle moved => exact integrated_isExited _

theorem keeps_table {ε α : Type} {m : Method ε VmProcessTable α}
    (spares : ∀ table : VmProcessTable, table.Sound → Spares table (m.call table).1) :
    Keeps Clean (table m) := fun s h => h.spared (spares s.processes h.sound)

/-! ## Exits -/

section Exits

variable {s : Failing} {pid : VmProcessId} {reason : VmExitReason}

theorem mem_targetMonitors {failures : VmFailureRuntime} {monitorRef : VmMonitorRef}
    {watcher : VmProcessId} {priority : Bool} :
    (monitorRef, watcher, priority) ∈ failures.targetMonitors pid ↔
      failures.monitors[monitorRef]? = some { watcher, target := pid, priority } := by
  unfold VmFailureRuntime.targetMonitors
  rw [mem_filterMap]
  constructor
  · rintro ⟨⟨key, monitor⟩, listed, taken⟩
    dsimp only at taken
    split at taken
    next own =>
      cases taken
      rw [← own]
      exact ExtTreeMap.mem_toList_iff_getElem?_eq_some.mp listed
    next => cases taken
  · intro found
    exact ⟨_, ExtTreeMap.mem_toList_iff_getElem?_eq_some.mpr found, if_pos rfl⟩

theorem getElem?_takeTargetMonitors {failures : VmFailureRuntime} {monitorRef : VmMonitorRef}
    {monitor : VmMonitor} :
    (failures.takeTargetMonitors pid).1.monitors[monitorRef]? = some monitor ↔
      failures.monitors[monitorRef]? = some monitor ∧ monitor.target ≠ pid := by
  unfold VmFailureRuntime.takeTargetMonitors
  dsimp only
  have keys : (failures.targetMonitors pid).foldl (fun monitors entry => monitors.erase entry.1)
      failures.monitors =
        ((failures.targetMonitors pid).map (·.1)).foldl (fun monitors key => monitors.erase key)
          failures.monitors := by
    rw [foldl_map]
  rw [keys, getElem?_foldl_erase]
  split
  next taken =>
    obtain ⟨⟨key, watcher, priority⟩, listed, rfl⟩ := mem_map.mp taken
    rw [mem_targetMonitors.mp listed]
    refine iff_of_false (by simp) ?_
    rintro ⟨found, other⟩
    cases found
    exact other rfl
  next kept =>
    refine ⟨fun found => ⟨found, fun own => kept ?_⟩, fun found => found.1⟩
    obtain ⟨watcher, target, priority⟩ := monitor
    cases own
    exact mem_map.mpr ⟨_, mem_targetMonitors.mpr found, rfl⟩

/-- The stores after an exit took its process out of them one by one. -/
theorem forgotten (failures : VmFailureRuntime) (pid : VmProcessId) :
    (((({ failures with trapExits := failures.trapExits.erase pid } :
      VmFailureRuntime).removeWatcherMonitors pid).takeTargetMonitors pid).1.takeLinks pid).1 =
      failures.forget pid := by
  have monitors : ((({ failures with trapExits := failures.trapExits.erase pid } :
      VmFailureRuntime).removeWatcherMonitors pid).takeTargetMonitors pid).1.monitors =
        (failures.forget pid).monitors := by
    apply ExtTreeMap.ext_getElem?
    intro monitorRef
    apply Option.ext
    intro monitor
    rw [getElem?_takeTargetMonitors]
    unfold VmFailureRuntime.removeWatcherMonitors VmFailureRuntime.forget
    dsimp only
    rw [getElem?_filter_eq_some_iff, getElem?_filter_eq_some_iff, decide_eq_true_eq,
      decide_eq_true_eq, and_assoc]
  unfold VmFailureRuntime.takeLinks
  rw [monitors]
  rfl

theorem Spares.trans {before between after : VmProcessTable} (first : Spares before between)
    (second : Spares between after) : Spares before after :=
  ⟨second.1, fun pid alive => second.2 pid (first.2 pid alive)⟩

theorem spares_sendDownPayload (ε : Type) (h : s.processes.Sound) (pid watcher : VmProcessId)
    (monitorRef : VmMonitorRef) (payload : ReplValue) (priority : Bool) : ∃ processes delivered,
      Method.call (sendDownPayload pid watcher monitorRef payload priority : Method ε Failing Bool) s =
        ({ s with processes }, .ok delivered) ∧ Spares s.processes processes := by
  unfold sendDownPayload
  rw [call_get_bind, call_ite]
  split
  next =>
    rw [call_bind, call_attempt, table, call_within]
    exact ⟨_, _, rfl, spares_sends h (h.sends_sendSystem pid watcher _ _)⟩
  next => exact ⟨s.processes, false, rfl, .refl h⟩

theorem spares_deliverDown (pid : VmProcessId) (reason : VmExitReason) (h : s.processes.Sound)
    (report : VmFailureReport) (entry : VmMonitorRef × VmProcessId × Bool) :
    ∃ processes report', Method.call (deliverDown pid reason report entry) s =
      ({ s with processes }, .ok report') ∧ Spares s.processes processes := by
  unfold deliverDown sendDownMessage
  obtain ⟨processes, delivered, run, spares⟩ :=
    spares_sendDownPayload (Fault String) h pid entry.2.1 entry.1
      (reasonValue reason) entry.2.2
  rw [call_bind, run]
  dsimp only
  rw [call_ite]
  split
  next => exact ⟨processes, _, rfl, spares⟩
  next => exact ⟨processes, _, rfl, spares⟩

/-- The messages about an exit end nobody. -/
theorem spares_downs (h : s.processes.Sound) (entries : List (VmMonitorRef × VmProcessId × Bool))
    (report : VmFailureReport) :
    ∃ processes report', Method.call (entries.foldlM (deliverDown pid reason) report) s =
        ({ s with processes }, .ok report') ∧ Spares s.processes processes := by
  induction entries generalizing s report with
  | nil => exact ⟨s.processes, report, rfl, .refl h⟩
  | cons entry entries ih =>
    obtain ⟨processes, between, run, spares⟩ :=
      spares_deliverDown pid reason h report entry
    rw [foldlM_cons, call_bind, run]
    obtain ⟨processes', report', run', spares'⟩ := ih (s := { s with processes }) spares.1 between
    exact ⟨processes', report', run', spares.trans spares'⟩

/-- An exit that is refused changes nothing; another one forgets its process and goes on with
the links. -/
theorem exitProcessInner_cases (h : s.processes.Sound) (fuel : Nat) (pid : VmProcessId)
    (reason : VmExitReason) :
    (∃ result, Method.call (exitProcessInner (fuel + 1) pid reason) s = (s, result)) ∨
      ∃ processes report, Method.call (exitProcessInner (fuel + 1) pid reason) s =
          Method.call ((s.failures.peers pid).foldlM
            (signalLinked (fun linked => exitProcessInner fuel linked reason) pid reason) report)
            { s with failures := s.failures.forget pid, processes } ∧
        processes.Sound ∧
        ∀ other, other ≠ pid → s.processes.isAlive other = true →
          processes.isAlive other = true := by
  rw [exitProcessInner, call_get_bind]
  split
  next => exact .inl ⟨_, rfl⟩
  next process _ =>
    rw [call_ite]
    split
    · exact .inl ⟨_, rfl⟩
    rw [call_bind, call_expect, table, call_within]
    rcases h.exitProcess_cases pid reason with
      ⟨e, run, _⟩ | ⟨processes, actor, run, found, _, becomes⟩
    · rw [run]
      exact .inl ⟨_, rfl⟩
    rw [run]
    right
    unfold Failing.self
    dsimp only [Except.mapError]
    rw [call_modify_bind, call_modify_bind, call_get_bind, call_modify_bind, call_bind]
    dsimp only
    obtain ⟨processes', report, run', spares⟩ := spares_downs
      (s := ⟨(({ s.failures with trapExits := s.failures.trapExits.erase pid } :
        VmFailureRuntime).removeWatcherMonitors pid).takeTargetMonitors pid |>.1, s.references,
          processes⟩) becomes.sound
      ((({ s.failures with trapExits := s.failures.trapExits.erase pid } :
        VmFailureRuntime).removeWatcherMonitors pid).targetMonitors pid)
      { exited := [pid], cleanupHandles := actor.value.resourceHandles }
    rw [run']
    dsimp only
    rw [call_get_bind, call_modify_bind]
    dsimp only
    rw [forgotten]
    refine ⟨processes', report, rfl, spares.1, fun other differs alive => spares.2 other ?_⟩
    obtain ⟨actor', found', live⟩ := isAlive_iff.mp alive
    refine isAlive_iff.mpr ⟨actor', ?_, live⟩
    rw [becomes.view, update_of_ne differs]
    exact found'

theorem keeps_signalLinked
    {exitLinked : VmProcessId → Method (Fault String) Failing VmFailureReport}
    (keeps : ∀ linked, Keeps Clean (exitLinked linked)) (report : VmFailureReport)
    (peer : VmProcessId × Bool) : Keeps Clean (signalLinked exitLinked pid reason report peer) := by
  unfold signalLinked
  refine keeps_get_bind fun s => leads_ite (fun _ => keeps_pure _) fun _ =>
    leads_ite (fun _ => ?_) fun _ => leads_ite (fun _ => keeps_pure _) fun _ => ?_
  · refine keeps_bind (leads_expect (keeps_table fun table h => ?_)) fun _ => keeps_pure _
    exact spares_sends h (h.sends_sendSystem _ _ _ _)
  · exact keeps_bind (leads_mapError (keeps peer.1)) fun _ => keeps_pure _

theorem keeps_exitProcessInner (fuel : Nat) (pid : VmProcessId) (reason : VmExitReason) :
    Keeps Clean (exitProcessInner fuel pid reason) := by
  induction fuel generalizing pid with
  | zero => exact keeps_throw _
  | succ fuel ih =>
    intro s h
    rcases exitProcessInner_cases h.sound fuel pid reason with
      ⟨result, run⟩ | ⟨processes, report, run, sound, others⟩
    · rw [run]
      exact h
    · rw [run]
      exact keeps_foldlM (fun report peer => keeps_signalLinked ih report peer) _ report _
        ⟨sound, h.mentions.forget others⟩

theorem keeps_exitProcess (pid : VmProcessId) (reason : VmExitReason) :
    Keeps Clean (exitProcess pid reason) := by
  unfold exitProcess
  exact keeps_get_bind fun s => keeps_exitProcessInner _ pid reason

end Exits

/-! ## The claim over runs -/

theorem keeps_ensured {ε α : Type} {check : Failing → Except ε Unit} {rest : Failing → Method ε Failing α}
    (keeps : ∀ s, Clean s → check s = .ok () → Clean ((rest s).call s).1) :
    Keeps Clean (do
      let s ← get
      check s
      rest s : Method ε Failing α) := by
  intro s h
  rw [call_get_bind, call_check_bind]
  cases valid : check s with
  | error e => exact h
  | ok _ => exact keeps s h valid

theorem keeps_linkWithPriority (priority : Bool) :
    Keeps Clean (linkWithPriority left right priority) := by
  unfold linkWithPriority
  refine leads_check_bind (fun _ h => h) fun _ _ => keeps_ensured fun s h valid => ?_
  rw [call_check_bind]
  cases valid' : ensureLiveProcess s.processes right "link" with
  | error e => exact h
  | ok _ =>
    exact h.linked priority (ensureLiveProcess_ok_iff.mp valid) (ensureLiveProcess_ok_iff.mp valid')

theorem keeps_setTrapExits (pid : VmProcessId) (enabled : Bool) :
    Keeps Clean (setTrapExits pid enabled) :=
  keeps_ensured fun _ h valid => h.trapped enabled (ensureTrapExitProcess_ok_iff.mp valid)

/-- Only the allocator changes. -/
theorem call_allocateReference (s : Failing) : ∃ references result,
      Method.call (allocator VmReferenceAllocator.allocateReference) s =
        ({ s with references }, result) := ⟨_, _, rfl⟩

theorem keeps_monitorWithPriority (watcher target : VmProcessId) (priority : Bool) :
    Keeps Clean (monitorWithPriority watcher target priority) := by
  unfold monitorWithPriority
  refine keeps_ensured fun s h valid => ?_
  rw [call_check_bind]
  cases valid' : ensureLiveProcess s.processes target "monitor" with
  | error e => exact h
  | ok _ =>
    dsimp only
    obtain ⟨references, result, run⟩ := call_allocateReference s
    rw [call_bind, run]
    cases result with
    | error e => exact ⟨h.sound, h.mentions⟩
    | ok monitorRef =>
      exact h.monitored monitorRef priority (ensureLiveProcess_ok_iff.mp valid)
        (ensureLiveProcess_ok_iff.mp valid')

theorem keeps_monitorOrComplete (watcher target : VmProcessId) (priority : Bool) :
    Keeps Clean (monitorOrCompleteWithPriority watcher target priority) := by
  unfold monitorOrCompleteWithPriority
  refine keeps_ensured fun s h valid => ?_
  split
  next => exact h
  next process found =>
    obtain ⟨references, result, run⟩ := call_allocateReference s
    rw [call_bind, run]
    cases result with
    | error e => exact ⟨h.sound, h.mentions⟩
    | ok monitorRef =>
      dsimp only
      rw [call_ite]
      split
      next =>
        obtain ⟨processes, delivered, run', spares⟩ :=
          spares_sendDownPayload String (s := { s with references }) h.sound target watcher
            monitorRef (.atom "noproc") priority
        rw [call_bind, run']
        exact ⟨spares.1, h.mentions.mono spares.2⟩
      next live =>
        refine h.monitored monitorRef priority (ensureLiveProcess_ok_iff.mp valid) ?_
        unfold isAlive
        rw [found, Option.any_some, Bool.eq_false_iff.mpr live]
        rfl

theorem keeps_demonitor (monitorRef : VmMonitorRef) : Keeps Clean (demonitor monitorRef) :=
  fun _ h => h.demonitored monitorRef

theorem keeps_demonitorFor (watcher : VmProcessId) (monitorRef : VmMonitorRef) :
    Keeps Clean (demonitorFor watcher monitorRef) := by
  unfold demonitorFor
  refine keeps_get_bind fun s => ?_
  split
  next => exact keeps_pure false
  next => exact leads_check_bind (fun _ h => h) fun _ _ => keeps_demonitor monitorRef

theorem keeps_demonitorForId (watcher : VmProcessId) (monitorId : UInt64) :
    Keeps Clean (demonitorForId watcher monitorId) := by
  unfold demonitorForId
  refine keeps_get_bind fun s => ?_
  split
  next => exact keeps_pure false
  next => exact keeps_demonitorFor watcher _

variable {before : VmProcessTable}

theorem spares_spawn {m : Method (Fault String) VmProcessTable VmProcessId}
    (cases : before.Spawns m) : Spares before (m.call before).1 := by
  rcases cases with ⟨fault, after, run, sound, same⟩ | ⟨after, pid, _, _, run, unknown, becomes⟩
  · rw [run]
    refine ⟨sound, fun pid alive => ?_⟩
    obtain ⟨actor, found, live⟩ := isAlive_iff.mp alive
    exact isAlive_iff.mpr ⟨actor, same ▸ found, live⟩
  · rw [run]
    exact spares_spawned becomes unknown

theorem spares_changed {α : Type} (h : before.Sound) {m : Method String VmProcessTable α}
    (cases : (∃ e, m.call before = (before, .error e)) ∨
      ∃ after a pid actor actor', m.call before = (after, .ok a) ∧ before.view pid = some actor ∧
        before.Becomes pid actor' after ∧
        actor'.value.state.isExited = actor.value.state.isExited) : Spares before (m.call before).1 := by
  rcases cases with ⟨e, run⟩ | ⟨after, a, pid, actor, actor', run, found, becomes, same⟩
  · rw [run]
    exact .refl h
  · rw [run]
    exact spares_becomes becomes found same

theorem spares_scheduled {α : Type} (h : before.Sound) {m : Method String VmProcessTable α}
    (cases : before.Schedules m) : Spares before (m.call before).1 :=
  spares_changed h (cases.imp_right fun ⟨after, a, pid, actor, _, run, found, becomes⟩ =>
    ⟨after, a, pid, actor, _, run, found, becomes, rfl⟩)

theorem spares_reapExited (h : before.Sound) (pid : VmProcessId) :
    Spares before (Method.call (VmProcessTable.reapExited pid) before).1 := by
  rcases h.reapExited_cases pid with ⟨e, run⟩ | ⟨after, actor, run, found, exited, sound, gone⟩
  · rw [run]
    exact .refl h
  rw [run]
  refine ⟨sound, fun other alive => ?_⟩
  obtain ⟨actor', found', live⟩ := isAlive_iff.mp alive
  refine isAlive_iff.mpr ⟨actor', ?_, live⟩
  rw [gone, update_of_ne]
  · exact found'
  · rintro rfl
    cases found.symm.trans found'
    rw [exited] at live
    cases live

theorem call_clean {s : Failing} (h : Clean s) (request : Request) : Clean (call s request).1 := by
  have keeps : Keeps Clean request.perform := by
    cases request with
    | link left right => exact leads_map (leads_orReturn (keeps_linkWithPriority left right false))
    | linkWithPriority left right priority =>
      exact leads_map (leads_orReturn (keeps_linkWithPriority left right priority))
    | unlink left right => exact leads_map fun s h => h.unlinked left right
    | setTrapExits pid enabled =>
      exact leads_map (leads_orReturn (leads_mapError (keeps_setTrapExits pid enabled)))
    | monitor watcher target =>
      exact leads_map (leads_orReturn (keeps_monitorWithPriority watcher target false))
    | monitorWithPriority watcher target priority =>
      exact leads_map (leads_orReturn (keeps_monitorWithPriority watcher target priority))
    | monitorOrComplete watcher target priority =>
      exact leads_map (leads_orReturn (keeps_monitorOrComplete watcher target priority))
    | demonitor monitorRef => exact leads_map (leads_orReturn (keeps_demonitor monitorRef))
    | demonitorFor watcher monitorRef =>
      exact leads_map (leads_orReturn (keeps_demonitorFor watcher monitorRef))
    | demonitorForId watcher monitorId =>
      exact leads_map (leads_orReturn (keeps_demonitorForId watcher monitorId))
    | exitProcess pid reason => exact leads_map (keeps_exitProcess pid reason)
    | spawnRoot source =>
      exact leads_map (keeps_table fun before h => spares_spawn (h.spawns_spawnRoot source))
    | spawnChild parent source =>
      exact leads_map (keeps_table fun before h => spares_spawn (h.spawns_spawnChild parent source))
    | reapExited pid =>
      exact leads_map (leads_orReturn (keeps_table fun before h => spares_reapExited h pid))
    | send sender recipient delivery =>
      refine leads_map (leads_orReturn (keeps_table fun before h => ?_))
      exact spares_sends h (h.sends_sendDelivery sender recipient delivery)
    | receiveNext pid =>
      refine leads_map (leads_orReturn (keeps_table fun before h => spares_changed h ?_))
      rcases h.updateProcess_cases pid (·.receiveNext.1) (fun _ => rfl) with
        ⟨e, run, _⟩ | ⟨after, actor, run, found, _, becomes⟩
      · exact .inl ⟨e, run⟩
      · exact .inr ⟨_, _, pid, actor, _, run, found, becomes, rfl⟩
    | markActorQueued pid =>
      exact leads_map (leads_orReturn (keeps_table fun before h =>
        spares_scheduled h (h.schedules_markActorQueued pid)))
    | acquireActorMutator pid owner =>
      exact leads_map (leads_orReturn (keeps_table fun before h =>
        spares_scheduled h (h.schedules_acquireActorMutator pid owner)))
    | integrateActorMailbox token issued =>
      refine leads_map (leads_orReturn (keeps_table fun before h => spares_changed h ?_))
      rcases h.integrateActorMailbox_cases issued with
        refused | ⟨after, actor, run, found, _, becomes⟩
      · exact .inl refused
      · exact .inr ⟨_, _, _, actor, _, run, found, becomes,
          integrated_isExited actor⟩
    | releaseActorMutator token issued next =>
      exact leads_map (leads_orReturn (keeps_table fun before h =>
        spares_scheduled h (h.schedules_releaseActorMutator issued next)))
  exact keeps s h

/-- No processes, and nothing about them. -/
def start (references : VmReferenceAllocator) : Failing := ⟨.new, references, .new⟩

theorem clean_start (references : VmReferenceAllocator) : Clean (start references) where
  sound := VmProcessTable.sound_new
  mentions :=
    { links := fun link mem => absurd mem ExtTreeSet.not_mem_empty
      priority := fun link mem => absurd mem ExtTreeSet.not_mem_empty
      monitors := fun monitorRef monitor found => by
        have empty : (∅ : ExtTreeMap VmMonitorRef VmMonitor)[monitorRef]? = none :=
          ExtTreeMap.getElem?_empty
        cases empty.symm.trans found
      trapExits := fun pid mem => absurd mem ExtTreeSet.not_mem_empty }

theorem run_clean (references : VmReferenceAllocator) (requests : List Request) :
    Clean (replay call (start references) requests).1 :=
  replay_state call Clean (fun _ request h => call_clean h request) (start references) requests
    (clean_start references)

/-- After every run the stores are about live processes, links are symmetric, and a priority
link is a link. -/
theorem failure_store (references : VmReferenceAllocator) (requests : List Request) :
    let s := (replay call (start references) requests).1
    (∀ link ∈ s.failures.links, s.processes.isAlive link.1 = true ∧
        s.processes.isAlive link.2 = true ∧ s.failures.isLinked link.1 link.2 = true) ∧
      (∀ left right, s.failures.isLinked left right = true →
        s.failures.isLinked right left = true ∧ s.processes.isAlive left = true ∧
          s.processes.isAlive right = true) ∧
      (∀ link ∈ s.failures.priorityLinks, s.failures.isLinked link.1 link.2 = true ∧
        s.processes.isAlive link.1 = true ∧ s.processes.isAlive link.2 = true) ∧
      (∀ (monitorRef : VmMonitorRef) (monitor : VmMonitor),
        s.failures.monitors[monitorRef]? = some monitor →
          s.processes.isAlive monitor.watcher = true ∧
            s.processes.isAlive monitor.target = true) ∧
      ∀ pid ∈ s.failures.trapExits, s.processes.isAlive pid = true := by
  intro s
  obtain ⟨_, mentions⟩ := run_clean references requests
  have linked (left right : VmProcessId) (linked : s.failures.isLinked left right = true) :
      s.processes.isAlive left = true ∧ s.processes.isAlive right = true := by
    obtain ⟨_, alive, alive'⟩ := mentions.links _ (ExtTreeSet.mem_iff_contains.mpr linked)
    rcases canonicalLink_cases left right with same | same
    · rw [same] at alive alive'
      exact ⟨alive, alive'⟩
    · rw [same] at alive alive'
      exact ⟨alive', alive⟩
  refine ⟨fun link mem => ?_, fun left right isLinked => ?_, fun link mem => ?_, mentions.monitors,
    mentions.trapExits⟩
  · obtain ⟨canonical, alive, alive'⟩ := mentions.links link mem
    refine ⟨alive, alive', ExtTreeSet.mem_iff_contains.mp ?_⟩
    rw [canonical]
    exact mem
  · exact ⟨(isLinked_comm _ _ _).trans isLinked, linked left right isLinked⟩
  · have isLinked := ExtTreeSet.mem_iff_contains.mp (mentions.priority link mem)
    exact ⟨isLinked, linked link.1 link.2 isLinked⟩

end Terlan.Failure
