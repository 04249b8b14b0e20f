/-
  Native resources: a row for each in the resource table, and a handle of its name in the
  process that owns it. An operation changes the row and the handle one after the other, and
  the change of the handle is refused while the process executes.
-/
import Mathlib.Data.List.Nodup
import Terlan.Lib.Text
import Terlan.Process.TableSpec

namespace Terlan.Resource

open Terlan.Lib Terlan.ActorDirectory Terlan.Process VmProcessTable List Function
open Std (ExtTreeMap TransOrd TransCmp LawfulEqOrd)
open VmProcessTable (updateProcess spawnRoot spawnChild exitProcess markActorQueued
  acquireActorMutator releaseActorMutator)

/-! ## Resource table -/

structure VmResourceId where
  value : UInt64
deriving DecidableEq

theorem VmResourceId.ext_value {a b : VmResourceId} (h : a.value = b.value) : a = b := by
  cases a; cases b; cases h; rfl

instance : Ord VmResourceId := ⟨compareOn VmResourceId.value⟩

instance : TransOrd VmResourceId := inferInstanceAs (TransCmp (compareOn VmResourceId.value))

instance : LawfulEqOrd VmResourceId := lawfulEqCmp_compareOn fun _ _ => VmResourceId.ext_value

inductive VmResourceTransferPolicy where
  | ownerOnly
  | transferable
deriving DecidableEq

structure VmResourceDescriptor where
  kind : String
  label : String

structure VmResourceRecord where
  id : VmResourceId
  owner : VmProcessId
  descriptor : VmResourceDescriptor
  transferPolicy : VmResourceTransferPolicy

inductive VmResourceEvent where
  | registered (id : VmResourceId) (owner : VmProcessId)
  | transferred (id : VmResourceId) (source target : VmProcessId)
  | released (id : VmResourceId) (owner : VmProcessId)
  | cleanedUpOnExit (id : VmResourceId) (owner : VmProcessId)

structure VmResourceTable where
  nextId : UInt64
  resources : ExtTreeMap VmResourceId VmResourceRecord

def VmResourceTable.new : VmResourceTable := ⟨0, ∅⟩

def resourceHandleName (resource : VmResourceId) : String := s!"resource:{resource.value.toNat}"

def staleResourceDiagnostic (resource : VmResourceId) : String :=
  s!"stale native resource handle {resource.value}"

namespace VmResourceTable

def liveResource (self : VmResourceTable) (resource : VmResourceId) :
    Except String VmResourceRecord :=
  match self.resources[resource]? with
  | none => .error (staleResourceDiagnostic resource)
  | some record => .ok record

/-- The check of the owner in all operations on a row. -/
def ownedResource (self : VmResourceTable) (resource : VmResourceId) (owner : VmProcessId) :
    Except String VmResourceRecord := do
  let record ← self.liveResource resource
  failIf (record.owner ≠ owner)
    (s!"resource {resource.value} is owned by process {record.owner.value}, "
      ++ s!"not {owner.value}")
  pure record

def getForOwner (self : VmResourceTable) (requester : VmProcessId) (resource : VmResourceId) :
    Except String VmResourceRecord := self.ownedResource resource requester

/-- The rows of one owner, in the order of their identities. -/
def ownedIds (self : VmResourceTable) (owner : VmProcessId) : List VmResourceId :=
  (self.resources.toList.filter fun row => row.2.owner = owner).map (·.1)

def cleanupOwner (self : VmResourceTable) (owner : VmProcessId) :
    VmResourceTable × List VmResourceEvent :=
  ({ self with
      resources := (self.ownedIds owner).foldl (fun rows id => rows.erase id) self.resources },
    (self.ownedIds owner).map fun id => .cleanedUpOnExit id owner)

end VmResourceTable

/-! ## Operations with the process table -/

/-- A resource table and the process table it borrows. -/
structure Resourcing where
  resources : VmResourceTable
  processes : VmProcessTable

namespace Resourcing

/-- The resource table changes itself. -/
def self {ε : Type} (change : VmResourceTable → VmResourceTable) : Method ε Resourcing Unit :=
  modify fun s => { s with resources := change s.resources }

/-- A method of the process table. -/
def table {ε α : Type} (m : Method ε VmProcessTable α) : Method ε Resourcing α :=
  m.within (·.processes) fun processes s => { s with processes }

end Resourcing

open Resourcing

/-- `ensure_live_process` has the texts of the routes of the process table. -/
def ensureLiveProcess (s : Resourcing) (pid : VmProcessId) (role : String) :
    Except String Unit := s.processes.validateRole role pid

def register (owner : VmProcessId) (descriptor : VmResourceDescriptor)
    (transferPolicy : VmResourceTransferPolicy) : Method String Resourcing VmResourceEvent := do
  let s ← get
  ensureLiveProcess s owner "owner"
  let id : VmResourceId := ⟨saturatingAdd s.resources.nextId 1⟩
  self fun resources => { resources with nextId := id.value }
  table (updateProcess owner (·.addResourceHandle (resourceHandleName id)))
  self fun resources =>
    { resources with
      resources := resources.resources.insert id { id, owner, descriptor, transferPolicy } }
  return .registered id owner

def validateTransfer (s : Resourcing) (resource : VmResourceId) (source target : VmProcessId) :
    Except String VmResourceRecord := do
  ensureLiveProcess s source "source"
  ensureLiveProcess s target "target"
  let record ← s.resources.ownedResource resource source
  failIf (record.transferPolicy ≠ VmResourceTransferPolicy.transferable)
    s!"resource {resource.value} cannot be transferred"
  pure record

def transfer (resource : VmResourceId) (source target : VmProcessId) :
    Method String Resourcing VmResourceEvent := do
  let s ← get
  let record ← validateTransfer s resource source target
  let handle := resourceHandleName resource
  table (updateProcess source (·.removeResourceHandle handle))
  table (updateProcess target (·.addResourceHandle handle))
  self fun resources =>
    { resources with
      resources := resources.resources.insert resource { record with owner := target } }
  return .transferred resource source target

def validateRelease (s : Resourcing) (owner : VmProcessId) (resource : VmResourceId) :
    Except String Unit := do
  ensureLiveProcess s owner "owner"
  let _ ← s.resources.ownedResource resource owner

def release (owner : VmProcessId) (resource : VmResourceId) :
    Method String Resourcing VmResourceEvent := do
  let s ← get
  validateRelease s owner resource
  self fun resources => { resources with resources := resources.resources.erase resource }
  table (updateProcess owner (·.removeResourceHandle (resourceHandleName resource)))
  return .released resource owner

/-- Removes the rows of an owner and then their handles; a refusal by the process is ignored. -/
def cleanupOwnerHandles (owner : VmProcessId) :
    Method String Resourcing (List VmResourceEvent) := do
  let s ← get
  let ownedIds := s.resources.ownedIds owner
  self fun resources => (resources.cleanupOwner owner).1
  if (s.processes.get owner).isSome then
    let _ ← (table (updateProcess owner fun process =>
      ownedIds.foldl (fun process id => process.removeResourceHandle (resourceHandleName id))
        process) : Method String Resourcing Unit).attempt
    return (s.resources.cleanupOwner owner).2
  else return (s.resources.cleanupOwner owner).2

/-! ## Requests -/

/-- Operations on resources, and what happens to the processes between them: they are
spawned, queued, executed by a worker, given back and ended. -/
inductive Request where
  | register (owner : VmProcessId) (descriptor : VmResourceDescriptor)
      (transferPolicy : VmResourceTransferPolicy)
  | transfer (resource : VmResourceId) (source target : VmProcessId)
  | release (owner : VmProcessId) (resource : VmResourceId)
  | cleanupOwner (owner : VmProcessId)
  | cleanupOwnerHandles (owner : VmProcessId)
  | spawnRoot (source : VmProcessSource)
  | spawnChild (parent : VmProcessId) (source : VmProcessSource)
  | exitProcess (pid : VmProcessId) (reason : VmExitReason)
  | markActorQueued (pid : VmProcessId)
  | acquireActorMutator (pid : VmProcessId) (owner : UInt64)
  | releaseActorMutator (token : VmActorMutatorToken) (issued : token.owner ≠ 0)
      (next : VmActorLifecycle)

inductive Answer where
  | done
  | event (event : VmResourceEvent)
  | events (events : List VmResourceEvent)
  | spawned (pid : VmProcessId)
  | cleanup (handles : List String)
  | granted (token : VmActorMutatorToken)
  | given (lifecycle : VmActorLifecycle)

def Request.perform : Request → Method (Fault String) Resourcing Answer
  | .register owner descriptor transferPolicy =>
    .event <$> (Resource.register owner descriptor transferPolicy).orReturn
  | .transfer resource source target => .event <$> (Resource.transfer resource source target).orReturn
  | .release owner resource => .event <$> (Resource.release owner resource).orReturn
  | .cleanupOwner owner => .ofCall fun s =>
    ({ s with resources := (s.resources.cleanupOwner owner).1 },
      .ok (.events (s.resources.cleanupOwner owner).2))
  | .cleanupOwnerHandles owner => .events <$> (Resource.cleanupOwnerHandles owner).orReturn
  | .spawnRoot source => .spawned <$> table (VmProcessTable.spawnRoot source)
  | .spawnChild parent source => .spawned <$> table (VmProcessTable.spawnChild parent source)
  | .exitProcess pid reason =>
    .cleanup <$> (table (VmProcessTable.exitProcess pid reason)).orReturn
  | .markActorQueued pid =>
    (fun _ => .done) <$> (table (VmProcessTable.markActorQueued pid)).orReturn
  | .acquireActorMutator pid owner =>
    .granted <$> (table (VmProcessTable.acquireActorMutator pid owner)).orReturn
  | .releaseActorMutator token _ next =>
    .given <$> (table (VmProcessTable.releaseActorMutator token next)).orReturn

def call (s : Resourcing) (request : Request) : Resourcing × Except (Fault String) Answer :=
  request.perform.call s

/-! ## Ownership -/

/-- The handles of a process are the names of its rows, each once. -/
def Holds (resources : VmResourceTable) (pid : VmProcessId) (handles : List String) : Prop :=
  handles.Nodup ∧ ∀ handle, handle ∈ handles ↔ ∃ id record,
    resources.resources[id]? = some record ∧ record.owner = pid ∧ handle = resourceHandleName id

/-- Rows and handles of live processes belong together. -/
def OneToOne (s : Resourcing) : Prop :=
  ∀ pid process, s.processes.get pid = some process → process.state.isExited = false →
    Holds s.resources pid process.resourceHandles

structure Owned (s : Resourcing) : Prop where
  sound : s.processes.Sound
  rows : ∀ (id : VmResourceId) (record : VmResourceRecord),
    s.resources.resources[id]? = some record → record.id = id ∧ id.value ≤ s.resources.nextId ∧
      s.processes.view record.owner ≠ none
  holds : OneToOne s

theorem resourceHandleName_injective {a b : VmResourceId}
    (h : resourceHandleName a = resourceHandleName b) : a = b := by
  have digits : toString a.value.toNat = toString b.value.toNat := by
    unfold resourceHandleName at h
    simpa using h
  exact VmResourceId.ext_value (UInt64.toNat_inj.mp (toString_injective digits))

theorem Holds.congr {resources resources' : VmResourceTable} {pid : VmProcessId}
    {handles : List String} (h : Holds resources pid handles)
    (same : ∀ (id : VmResourceId) (record : VmResourceRecord), record.owner = pid →
      (resources'.resources[id]? = some record ↔ resources.resources[id]? = some record)) :
    Holds resources' pid handles := by
  refine ⟨h.1, fun handle => (h.2 handle).trans ?_⟩
  constructor
  · rintro ⟨id, record, row, own, named⟩
    exact ⟨id, record, (same id record own).mpr row, own, named⟩
  · rintro ⟨id, record, row, own, named⟩
    exact ⟨id, record, (same id record own).mp row, own, named⟩

namespace Owned

variable {s after : Resourcing} {pid : VmProcessId} {actor actor' : VmActor}

theorem holds_view (h : Owned s) (found : s.processes.view pid = some actor)
    (live : actor.value.state.isExited = false) :
    Holds s.resources pid actor.value.resourceHandles :=
  h.holds pid actor.value (by rw [get_eq_view, found]; rfl) live

/-- One process changes, with the rows that it owns. -/
theorem changed (h : Owned s) (becomes : s.processes.Becomes pid actor after.processes)
    (rows : ∀ (id : VmResourceId) (record : VmResourceRecord),
      after.resources.resources[id]? = some record → record.id = id ∧
        id.value ≤ after.resources.nextId ∧
        (record.owner = pid ∨ s.processes.view record.owner ≠ none))
    (others : ∀ (id : VmResourceId) (record : VmResourceRecord), record.owner ≠ pid →
      (after.resources.resources[id]? = some record ↔ s.resources.resources[id]? = some record))
    (own : actor.value.state.isExited = false →
      Holds after.resources pid actor.value.resourceHandles) : Owned after where
  sound := becomes.sound
  rows id record row := by
    obtain ⟨named, small, owner⟩ := rows id record row
    refine ⟨named, small, ?_⟩
    rw [becomes.view, update_apply]
    split
    next => simp
    next other => exact owner.resolve_left other
  holds other process found live := by
    rw [becomes.get] at found
    split at found
    next same =>
      cases found
      rw [same]
      exact own live
    next differs =>
      refine (h.holds other process found live).congr fun id record owned => others id record ?_
      rw [owned]
      exact differs

variable {processes : VmProcessTable}

/-- A process that keeps its handles. -/
theorem moved (h : Owned s) (becomes : s.processes.Becomes pid actor' processes)
    (found : s.processes.view pid = some actor)
    (handles : actor'.value.resourceHandles = actor.value.resourceHandles)
    (live : actor'.value.state.isExited = actor.value.state.isExited) :
    Owned { s with processes } := by
  refine h.changed becomes (fun id record row => ?_) (fun _ _ _ => Iff.rfl) fun still => ?_
  · obtain ⟨named, small, owner⟩ := h.rows id record row
    exact ⟨named, small, .inr owner⟩
  · rw [handles]
    exact h.holds_view found (live ▸ still)

theorem fresh (h : Owned s) (unknown : s.processes.view pid = none) : Holds s.resources pid [] := by
  refine ⟨nodup_nil, fun handle => iff_of_false (by simp) ?_⟩
  rintro ⟨id, record, row, rfl, _⟩
  exact (h.rows id record row).2.2 unknown

theorem spawned (h : Owned s) (becomes : s.processes.Becomes pid actor processes)
    (unknown : s.processes.view pid = none) (handles : actor.value.resourceHandles = []) :
    Owned { s with processes } := by
  refine h.changed becomes (fun id record row => ?_) (fun _ _ _ => Iff.rfl) fun _ => ?_
  · obtain ⟨named, small, owner⟩ := h.rows id record row
    exact ⟨named, small, .inr owner⟩
  · rw [handles]
    exact h.fresh unknown

/-- A row of an unused identity, and its handle. -/
theorem added (h : Owned s) (found : s.processes.view pid = some actor)
    (live : actor.value.state.isExited = false) {record : VmResourceRecord} {nextId : UInt64}
    (unused : s.resources.resources[record.id]? = none) (fits : record.id.value ≤ nextId)
    (grows : s.resources.nextId ≤ nextId) (owned : record.owner = pid)
    (becomes : s.processes.Becomes pid
      { actor with value := actor.value.addResourceHandle (resourceHandleName record.id) }
      processes) :
    Owned ⟨⟨nextId, s.resources.resources.insert record.id record⟩, processes⟩ := by
  have before := h.holds_view found live
  have new : resourceHandleName record.id ∉ actor.value.resourceHandles := by
    intro mem
    obtain ⟨other, _, row, _, same⟩ := (before.2 _).mp mem
    rw [← resourceHandleName_injective same, unused] at row
    cases row
  refine h.changed becomes (fun other record' row => ?_) (fun other record' differs => ?_)
    fun _ => ⟨?_, fun handle => ?_⟩
  · rw [getElem?_insert_eq] at row
    split at row
    next same =>
      cases row
      exact ⟨same, by rw [← same]; exact fits, .inl owned⟩
    next =>
      obtain ⟨named, small, owner⟩ := h.rows other record' row
      exact ⟨named, UInt64.le_trans small grows, .inr owner⟩
  · rw [getElem?_insert_eq]
    split
    next same =>
      rw [← same, unused]
      refine iff_of_false (fun row => differs ?_) (by simp)
      cases row
      exact owned
    next => exact Iff.rfl
  · exact nodup_append.mpr ⟨before.1, pairwise_singleton _ _, by
      rintro a mem b last rfl
      rw [mem_singleton.mp last] at mem
      exact new mem⟩
  · change handle ∈ actor.value.resourceHandles ++ [resourceHandleName record.id] ↔ _
    rw [mem_append, mem_singleton, before.2]
    constructor
    · rintro (⟨other, record', row, own, same⟩ | same)
      · refine ⟨other, record', ?_, own, same⟩
        rw [getElem?_insert_of_ne]
        · exact row
        · rintro rfl
          rw [unused] at row
          cases row
      · exact ⟨record.id, record, getElem?_insert_self_eq _ _ _, owned, same⟩
    · rintro ⟨other, record', row, own, same⟩
      rw [getElem?_insert_eq] at row
      split at row
      next here =>
        rw [← here] at same
        exact .inr same
      next => exact .inl ⟨other, record', row, own, same⟩

/-- A row goes, and its handle. -/
theorem released (h : Owned s) (found : s.processes.view pid = some actor)
    (live : actor.value.state.isExited = false) {id : VmResourceId} {record : VmResourceRecord}
    (row : s.resources.resources[id]? = some record) (owned : record.owner = pid)
    (becomes : s.processes.Becomes pid
      { actor with value := actor.value.removeResourceHandle (resourceHandleName id) }
      processes) :
    Owned
      { resources := { s.resources with resources := s.resources.resources.erase id }
        processes } := by
  have before := h.holds_view found live
  refine h.changed becomes (fun other record' row' => ?_) (fun other record' differs => ?_)
    fun _ => ⟨before.1.erase _, fun handle => ?_⟩
  · rw [getElem?_erase_eq] at row'
    split at row'
    next => cases row'
    next =>
      obtain ⟨named, small, owner⟩ := h.rows other record' row'
      exact ⟨named, small, .inr owner⟩
  · rw [getElem?_erase_eq]
    split
    next same =>
      rw [← same, row]
      refine iff_of_false (by simp) fun eq => differs ?_
      cases eq
      exact owned
    next => exact Iff.rfl
  · change handle ∈ actor.value.resourceHandles.erase (resourceHandleName id) ↔ _
    rw [before.1.mem_erase_iff, before.2]
    constructor
    · rintro ⟨other, id', record', row', own, same⟩
      refine ⟨id', record', ?_, own, same⟩
      rw [getElem?_erase_eq, if_neg]
      · exact row'
      · rintro rfl
        exact other same
    · rintro ⟨id', record', row', own, same⟩
      rw [getElem?_erase_eq] at row'
      split at row'
      next => cases row'
      next differs =>
        refine ⟨fun eq => differs ?_, id', record', row', own, same⟩
        exact resourceHandleName_injective (eq.symm.trans same)

/-- Nothing that is owned changes. -/
theorem sameView (h : Owned s) (sound : processes.Sound)
    (same : processes.view = s.processes.view) : Owned { s with processes } where
  sound := sound
  rows id record row := by
    rw [same]
    exact h.rows id record row
  holds pid process found live := by
    rw [VmProcessTable.get_eq_view, same, ← VmProcessTable.get_eq_view] at found
    exact h.holds pid process found live

end Owned

/-! ## Steps -/

/-- Neither the rows nor the handles of any process changed. -/
def Untouched (before after : Resourcing) : Prop :=
  after.resources = before.resources ∧ ∀ pid,
    (after.processes.get pid).map (·.resourceHandles) =
      (before.processes.get pid).map (·.resourceHandles)

theorem Untouched.refl (s : Resourcing) : Untouched s s := ⟨rfl, fun _ => rfl⟩

/-- What the claim says of one call: rows and handles still belong together, and an error has
changed nothing. -/
def Settles {ε α : Type} (before : Resourcing) (result : Resourcing × Except ε α) : Prop :=
  Owned result.1 ∧ ∀ e, result.2 = .error e → Untouched before result.1

variable {s : Resourcing}

theorem settles_refused {ε α : Type} (h : Owned s) (e : ε) :
    Settles s (s, (.error e : Except ε α)) := ⟨h, fun _ _ => .refl s⟩

theorem settles_ok {ε α : Type} {s after : Resourcing} (h : Owned after) (a : α) :
    Settles s (after, (.ok a : Except ε α)) := ⟨h, fun _ run => by cases run⟩

/-- The request meets a process that executes between the change of a row and the change of
its handle, takes the rows of a live process without their handles, or runs out of
identities. -/
def Interrupted (s : Resourcing) : Request → Prop
  | .register owner _ _ => s.processes.isAlive owner = true ∧
      (s.processes.Executes owner ∨ s.resources.nextId.toNat = u64Max)
  | .transfer resource source target =>
    (validateTransfer s resource source target).isOk = true ∧
      ¬ s.processes.Executes source ∧ s.processes.Executes target
  | .release owner resource =>
    validateRelease s owner resource = .ok () ∧ s.processes.Executes owner
  | .cleanupOwner owner => s.processes.isAlive owner = true ∧ s.resources.ownedIds owner ≠ []
  | .cleanupOwnerHandles owner =>
    s.processes.Executes owner ∧ s.resources.ownedIds owner ≠ []
  | _ => False

instance (s : Resourcing) : (request : Request) → Decidable (Interrupted s request)
  | .register owner _ _ => inferInstanceAs (Decidable (s.processes.isAlive owner = true ∧
      (s.processes.Executes owner ∨ s.resources.nextId.toNat = u64Max)))
  | .transfer resource source target => inferInstanceAs (Decidable
      ((validateTransfer s resource source target).isOk = true ∧
        ¬ s.processes.Executes source ∧ s.processes.Executes target))
  | .release owner resource => inferInstanceAs (Decidable
      (validateRelease s owner resource = .ok () ∧ s.processes.Executes owner))
  | .cleanupOwner owner => inferInstanceAs (Decidable
      (s.processes.isAlive owner = true ∧ s.resources.ownedIds owner ≠ []))
  | .cleanupOwnerHandles owner => inferInstanceAs (Decidable
      (s.processes.Executes owner ∧ s.resources.ownedIds owner ≠ []))
  | .spawnRoot _ => instDecidableFalse
  | .spawnChild _ _ => instDecidableFalse
  | .exitProcess _ _ => instDecidableFalse
  | .markActorQueued _ => instDecidableFalse
  | .acquireActorMutator _ _ => instDecidableFalse
  | .releaseActorMutator _ _ _ => instDecidableFalse

theorem saturatingAdd_one_gt {a : UInt64} (room : a.toNat ≠ u64Max) : a < saturatingAdd a 1 := by
  have bound := a.toNat_lt
  rw [UInt64.lt_iff_toNat_lt, saturatingAdd_toNat, show (1 : UInt64).toNat = 1 from rfl]
  unfold u64Max at room ⊢
  omega

theorem settles_register (h : Owned s) (owner : VmProcessId)
    (descriptor : VmResourceDescriptor) (transferPolicy : VmResourceTransferPolicy)
    (safe : ¬ Interrupted s (.register owner descriptor transferPolicy)) :
    Settles s ((register owner descriptor transferPolicy).call s) := by
  unfold register ensureLiveProcess
  rw [call_get_bind, call_check_bind]
  cases valid : s.processes.validateRole "owner" owner with
  | error e => exact settles_refused h e
  | ok _ =>
    have alive := validateRole_ok_iff.mp valid
    obtain ⟨actor, found, live⟩ := isAlive_iff.mp alive
    obtain ⟨idle, room⟩ := not_or.mp fun bad => safe ⟨alive, bad⟩
    have grows := saturatingAdd_one_gt room
    unfold Resourcing.self table
    dsimp only
    generalize saturatingAdd s.resources.nextId 1 = next at grows ⊢
    rw [call_modify_bind, call_bind, call_within]
    rcases h.sound.updateProcess_cases owner
        (·.addResourceHandle (resourceHandleName ⟨next⟩)) (fun _ => rfl) with
      ⟨e, run, busy⟩ | ⟨processes, actor', run, found', _, becomes⟩
    · exact absurd (busy.executes found) idle
    cases found'.symm.trans found
    rw [run]
    obtain ⟨record, new⟩ : ∃ record : VmResourceRecord,
        record = ⟨⟨next⟩, owner, descriptor, transferPolicy⟩ := ⟨_, rfl⟩
    have named : record.id = ⟨next⟩ := by rw [new]
    have unused : s.resources.resources[record.id]? = none := by
      rw [named]
      cases row : s.resources.resources[(⟨next⟩ : VmResourceId)]? with
      | none => rfl
      | some other => exact absurd (h.rows _ other row).2.1 (UInt64.not_le.mpr grows)
    rw [← named] at becomes
    have owned := h.added found live unused (by rw [named]; exact UInt64.le_refl _)
      (UInt64.le_of_lt grows) (by rw [new]) becomes
    rw [new] at owned
    exact settles_ok owned _

variable {resources : VmResourceTable} {owner : VmProcessId} {record : VmResourceRecord}
variable {resource : VmResourceId}

theorem ownedResource_ok_iff : resources.ownedResource resource owner = .ok record ↔
      resources.resources[resource]? = some record ∧ record.owner = owner := by
  unfold VmResourceTable.ownedResource VmResourceTable.liveResource
  rw [except_bind_ok_iff]
  cases row : resources.resources[resource]? with
  | none => simp
  | some other =>
    constructor
    · rintro ⟨_, same, rest⟩
      cases same
      obtain ⟨own, same⟩ := check_bind_ok_iff.mp rest
      cases same
      exact ⟨rfl, not_not.mp (failIf_ok_iff.mp own)⟩
    · rintro ⟨same, own⟩
      cases same
      exact ⟨record, rfl, check_bind_ok_iff.mpr ⟨failIf_ok_iff.mpr (not_not.mpr own), rfl⟩⟩

theorem validateRelease_ok_iff :
    validateRelease s owner resource = .ok () ↔ s.processes.isAlive owner = true ∧
      ∃ record, s.resources.resources[resource]? = some record ∧ record.owner = owner := by
  unfold validateRelease ensureLiveProcess
  rw [check_bind_ok_iff, validateRole_ok_iff, except_bind_ok_iff]
  simp only [ownedResource_ok_iff]
  constructor
  · rintro ⟨alive, record, row, _⟩
    exact ⟨alive, record, row⟩
  · rintro ⟨alive, record, row⟩
    exact ⟨alive, record, row, rfl⟩

theorem settles_release (h : Owned s) (owner : VmProcessId)
    (resource : VmResourceId) (safe : ¬ Interrupted s (.release owner resource)) :
    Settles s ((release owner resource).call s) := by
  unfold release
  rw [call_get_bind, call_check_bind]
  cases valid : validateRelease s owner resource with
  | error e => exact settles_refused h e
  | ok _ =>
    obtain ⟨alive, record, row, owned⟩ := validateRelease_ok_iff.mp valid
    obtain ⟨actor, found, live⟩ := isAlive_iff.mp alive
    unfold Resourcing.self table
    dsimp only
    rw [call_modify_bind, call_bind, call_within]
    rcases h.sound.updateProcess_cases owner
        (·.removeResourceHandle (resourceHandleName resource)) (fun _ => rfl) with
      ⟨e, run, busy⟩ | ⟨processes, actor', run, found', _, becomes⟩
    · exact absurd ⟨valid, busy.executes found⟩ safe
    · cases found'.symm.trans found
      rw [run]
      exact settles_ok (h.released found live row owned becomes) _

theorem validateTransfer_ok_iff {source target : VmProcessId} :
    validateTransfer s resource source target = .ok record ↔
      s.processes.isAlive source = true ∧ s.processes.isAlive target = true ∧
        s.resources.resources[resource]? = some record ∧ record.owner = source ∧
        record.transferPolicy = .transferable := by
  unfold validateTransfer ensureLiveProcess
  rw [check_bind_ok_iff, validateRole_ok_iff, check_bind_ok_iff,
    validateRole_ok_iff, except_bind_ok_iff]
  simp only [ownedResource_ok_iff, check_bind_ok_iff, failIf_ok_iff, not_not, ne_eq]
  constructor
  · rintro ⟨alive, alive', other, ⟨row, own⟩, policy, same⟩
    cases same
    exact ⟨alive, alive', row, own, policy⟩
  · rintro ⟨alive, alive', row, own, policy⟩
    exact ⟨alive, alive', record, ⟨row, own⟩, policy, rfl⟩

theorem settles_transfer (h : Owned s) (resource : VmResourceId)
    (source target : VmProcessId) (safe : ¬ Interrupted s (.transfer resource source target)) :
    Settles s ((transfer resource source target).call s) := by
  unfold transfer
  rw [call_get_bind, call_check_bind]
  cases valid : validateTransfer s resource source target with
  | error e => exact settles_refused h e
  | ok record =>
    obtain ⟨alive, alive', row, owned, _⟩ := validateTransfer_ok_iff.mp valid
    obtain ⟨actor, found, live⟩ := isAlive_iff.mp alive
    obtain ⟨receiver, found', live'⟩ := isAlive_iff.mp alive'
    unfold Resourcing.self table
    dsimp only
    rw [call_bind, call_within]
    rcases h.sound.updateProcess_cases source
        (·.removeResourceHandle (resourceHandleName resource)) (fun _ => rfl) with
      ⟨e, run, _⟩ | ⟨processes, actor', run, same, idle, becomes⟩
    · rw [run]
      exact settles_refused h e
    cases same.symm.trans found
    rw [run]
    dsimp only
    have parted := h.released found live row owned becomes
    rw [call_bind, call_within]
    rcases becomes.sound.updateProcess_cases target
        (·.addResourceHandle (resourceHandleName resource)) (fun _ => rfl) with
      ⟨e, run', busy⟩ | ⟨processes', receiver', run', same', _, becomes'⟩
    · exfalso
      refine safe ⟨by rw [valid]; rfl, fun busy => ?_, ?_⟩
      · obtain ⟨other, seen, executing⟩ := busy
        cases seen.symm.trans found
        exact idle executing
      · obtain ⟨other, seen⟩ : ∃ other, VmProcessTable.view
            { s.processes with processes } target = some other := by
          rw [becomes.view, update_apply]
          split
          next => exact ⟨_, rfl⟩
          next => exact ⟨_, found'⟩
        have executing := busy other seen
        rw [becomes.view, update_apply] at seen
        split at seen
        next =>
          cases seen
          exact absurd executing idle
        next => exact ⟨other, seen, executing⟩
    · rw [run']
      have live'' : receiver'.value.state.isExited = false := by
        rw [becomes.view, update_apply] at same'
        split at same'
        next =>
          cases same'
          exact live
        next =>
          cases same'.symm.trans found'
          exact live'
      obtain ⟨moved, new⟩ : ∃ moved, moved = { record with owner := target } := ⟨_, rfl⟩
      obtain ⟨id, small, _⟩ := h.rows resource record row
      have named : moved.id = resource := by rw [new]; exact id
      have unused : (s.resources.resources.erase resource)[moved.id]? = none := by
        rw [named, getElem?_erase_eq, if_pos rfl]
      rw [← named] at becomes'
      have joined := parted.added same' live'' unused (by rw [named]; exact small)
        (UInt64.le_refl _) (by rw [new]) becomes'
      rw [named, insert_erase_eq, new] at joined
      exact settles_ok joined _

/-! ## Cleanup -/

theorem mem_ownedIds {id : VmResourceId} : id ∈ resources.ownedIds owner ↔
      ∃ record, resources.resources[id]? = some record ∧ record.owner = owner := by
  unfold VmResourceTable.ownedIds
  simp only [mem_map, mem_filter, decide_eq_true_eq, Prod.exists,
    ExtTreeMap.mem_toList_iff_getElem?_eq_some]
  constructor
  · rintro ⟨key, record, ⟨row, own⟩, rfl⟩
    exact ⟨record, row, own⟩
  · rintro ⟨record, row, own⟩
    exact ⟨id, record, ⟨row, own⟩, rfl⟩

/-- The rows of other owners stay. -/
theorem cleanupOwner_row {id : VmResourceId} :
    (resources.cleanupOwner owner).1.resources[id]? = some record ↔
      resources.resources[id]? = some record ∧ record.owner ≠ owner := by
  unfold VmResourceTable.cleanupOwner
  rw [getElem?_foldl_erase]
  split
  next owned =>
    obtain ⟨other, row, own⟩ := mem_ownedIds.mp owned
    refine iff_of_false (by simp) ?_
    rintro ⟨row', differs⟩
    rw [row] at row'
    cases row'
    exact differs own
  next free =>
    refine ⟨fun row => ⟨row, fun own => free (mem_ownedIds.mpr ⟨record, row, own⟩)⟩, fun row => row.1⟩

theorem foldl_removeResourceHandle (ids : List VmResourceId) (process : VmProcess) :
    ids.foldl (fun process id => process.removeResourceHandle (resourceHandleName id)) process =
      { process with
        resourceHandles := process.resourceHandles.diff (ids.map resourceHandleName) } := by
  induction ids generalizing process with
  | nil => rfl
  | cons id ids ih =>
    rw [foldl_cons, ih, map_cons, diff_cons]
    rfl

namespace Owned

variable {s : Resourcing} {pid : VmProcessId} {actor : VmActor}

/-- The rows of a process that is not live. -/
theorem cleanedUp (h : Owned s) {owner : VmProcessId}
    (ended : ∀ actor, s.processes.view owner = some actor → actor.value.state.isExited = true) :
    Owned { s with resources := (s.resources.cleanupOwner owner).1 } where
  sound := h.sound
  rows id record row := by
    exact h.rows id record (cleanupOwner_row.mp row).1
  holds pid process found live := by
    refine (h.holds pid process found live).congr fun id record own => ?_
    rw [cleanupOwner_row]
    refine ⟨fun row => row.1, fun row => ⟨row, fun same => ?_⟩⟩
    rw [VmProcessTable.get_eq_view, Option.map_eq_some_iff] at found
    obtain ⟨actor, seen, value⟩ := found
    have exited := ended actor (by rw [← same, own]; exact seen)
    rw [value, live] at exited
    cases exited

/-- The rows of a process and their handles. -/
theorem cleanedUpHandles (h : Owned s) (found : s.processes.view pid = some actor)
    {processes : VmProcessTable}
    (becomes : s.processes.Becomes pid
      { actor with
        value := (s.resources.ownedIds pid).foldl (fun process id =>
          process.removeResourceHandle (resourceHandleName id)) actor.value } processes) :
    Owned { resources := (s.resources.cleanupOwner pid).1, processes } := by
  rw [foldl_removeResourceHandle] at becomes
  refine h.changed becomes (fun id record row => ?_) (fun id record differs => ?_) fun live => ?_
  · obtain ⟨named, small, owner⟩ := h.rows id record (cleanupOwner_row.mp row).1
    exact ⟨named, small, .inr owner⟩
  · rw [cleanupOwner_row]
    exact and_iff_left differs
  · have before := h.holds_view found live
    refine ⟨List.Nodup.diff before.1, fun handle => iff_of_false (fun mem => ?_) ?_⟩
    · obtain ⟨held, other⟩ := (List.Nodup.mem_sdiff_iff before.1).mp mem
      obtain ⟨id, record, row, own, same⟩ := (before.2 handle).mp held
      exact other (mem_map.mpr ⟨id, mem_ownedIds.mpr ⟨record, row, own⟩, same.symm⟩)
    · rintro ⟨id, record, row, own, _⟩
      exact (cleanupOwner_row.mp row).2 own

end Owned

theorem settles_cleanupOwner (h : Owned s) (owner : VmProcessId)
    (safe : ¬ Interrupted s (.cleanupOwner owner)) :
    Owned { s with resources := (s.resources.cleanupOwner owner).1 } := by
  by_cases empty : s.resources.ownedIds owner = []
  · unfold VmResourceTable.cleanupOwner
    rw [empty]
    exact h
  · refine h.cleanedUp fun actor found => ?_
    by_contra live
    refine safe ⟨isAlive_iff.mpr ⟨actor, found, ?_⟩, empty⟩
    exact Bool.eq_false_iff.mpr live

theorem settles_cleanupOwnerHandles (h : Owned s) (owner : VmProcessId)
    (safe : ¬ Interrupted s (.cleanupOwnerHandles owner)) :
    Settles s ((cleanupOwnerHandles owner).call s) := by
  unfold cleanupOwnerHandles Resourcing.self table
  rw [call_get_bind]
  dsimp only
  rw [call_modify_bind, call_ite]
  split
  next present =>
    rw [call_bind, call_attempt, call_within]
    rcases h.sound.updateProcess_cases owner (fun process =>
        (s.resources.ownedIds owner).foldl (fun process id =>
          process.removeResourceHandle (resourceHandleName id)) process)
        (fun process => by rw [foldl_removeResourceHandle]) with
      ⟨e, run, busy⟩ | ⟨processes, actor, run, found, _, becomes⟩
    · have unowned : s.resources.ownedIds owner = [] := by
        rw [get_eq_view, Option.isSome_map] at present
        obtain ⟨actor, found⟩ := Option.isSome_iff_exists.mp present
        by_contra owned
        exact safe ⟨busy.executes found, owned⟩
      rw [run]
      refine settles_ok ?_ _
      unfold VmResourceTable.cleanupOwner
      rw [unowned]
      exact h
    · rw [run]
      exact settles_ok (h.cleanedUpHandles found becomes) _
  next absent =>
    refine settles_ok (h.cleanedUp fun actor found => ?_) _
    rw [get_eq_view, found] at absent
    exact absurd rfl absent

/-! ## Processes -/

theorem settles_spawned (h : Owned s) {m : Method (Fault String) VmProcessTable VmProcessId}
    (cases : s.processes.Spawns m) :
    Settles s ((Answer.spawned <$> table m).call s) := by
  unfold table
  rw [call_map, call_within]
  rcases cases with ⟨fault, after, run, sound, same⟩ | ⟨after, pid, parent, source, run, unknown,
    becomes⟩
  · rw [run]
    refine ⟨h.sameView sound same, fun e _ => ⟨rfl, fun pid => ?_⟩⟩
    change (VmProcessTable.get after pid).map _ = _
    rw [get_eq_view, same, ← get_eq_view]
  · rw [run]
    exact settles_ok (h.spawned becomes unknown rfl) _

theorem settles_orReturn {α : Type} {m : Method String Resourcing α}
    (f : α → Answer) (settles : Settles s (m.call s)) : Settles s ((f <$> m.orReturn).call s) := by
  obtain ⟨owned, atomic⟩ := settles
  rw [call_map, call_orReturn]
  refine ⟨owned, fun e run => ?_⟩
  cases failed : (m.call s).2 with
  | error e => exact atomic e failed
  | ok a =>
    rw [failed] at run
    cases run

/-- An operation that is refused, or moves one process between lifecycles. -/
theorem settles_scheduled {α : Type} (h : Owned s) {m : Method String VmProcessTable α}
    (cases : s.processes.Schedules m) :
    Settles s ((table m : Method String Resourcing α).call s) := by
  unfold table
  rw [call_within]
  rcases cases with ⟨e, run⟩ | ⟨after, a, pid, actor, lifecycle, run, found, becomes⟩
  · rw [run]
    exact settles_refused h e
  · rw [run]
    exact settles_ok (h.moved becomes found rfl rfl) a

theorem settles_exitProcess (h : Owned s) (pid : VmProcessId) (reason : VmExitReason) :
    Settles s ((table (exitProcess pid reason) : Method String Resourcing _).call s) := by
  unfold table
  rw [call_within]
  rcases h.sound.exitProcess_cases pid reason with
    ⟨e, run, _⟩ | ⟨after, actor, run, found, _, becomes⟩
  · rw [run]
    exact settles_refused h e
  rw [run]
  have owned : Owned { s with processes := after } := by
    refine h.changed becomes (fun id record row => ?_) (fun _ _ _ => Iff.rfl) fun live => ?_
    · obtain ⟨named, small, owner⟩ := h.rows id record row
      exact ⟨named, small, .inr owner⟩
    · cases live
  exact settles_ok owned _

theorem call_settles (h : Owned s) (request : Request)
    (safe : ¬ Interrupted s request) : Settles s (call s request) := by
  unfold call
  cases request with
  | register owner descriptor transferPolicy =>
    exact settles_orReturn _ (settles_register h owner descriptor transferPolicy safe)
  | transfer resource source target =>
    exact settles_orReturn _ (settles_transfer h resource source target safe)
  | release owner resource => exact settles_orReturn _ (settles_release h owner resource safe)
  | cleanupOwner owner => exact settles_ok (settles_cleanupOwner h owner safe) _
  | cleanupOwnerHandles owner => exact settles_orReturn _ (settles_cleanupOwnerHandles h owner safe)
  | spawnRoot source => exact settles_spawned h (h.sound.spawns_spawnRoot source)
  | spawnChild parent source => exact settles_spawned h (h.sound.spawns_spawnChild parent source)
  | exitProcess pid reason => exact settles_orReturn _ (settles_exitProcess h pid reason)
  | markActorQueued pid =>
    exact settles_orReturn _ (settles_scheduled h (h.sound.schedules_markActorQueued pid))
  | acquireActorMutator pid owner =>
    exact settles_orReturn _ (settles_scheduled h (h.sound.schedules_acquireActorMutator pid owner))
  | releaseActorMutator token issued next =>
    exact settles_orReturn _
      (settles_scheduled h (h.sound.schedules_releaseActorMutator issued next))

/-! ## The claim over runs -/

/-- No resources and no processes. -/
def start : Resourcing := ⟨.new, .new⟩

theorem owned_start : Owned start where
  sound := VmProcessTable.sound_new
  rows id record row := by
    have empty : (∅ : ExtTreeMap VmResourceId VmResourceRecord)[id]? = none :=
      ExtTreeMap.getElem?_empty
    cases empty.symm.trans row
  holds pid process found := by
    rw [VmProcessTable.get_eq_view] at found
    unfold start at found
    rw [VmProcessTable.view_new] at found
    cases found

/-- In every run that is not interrupted, rows and handles of live processes belong together,
and a call that fails changes neither. -/
theorem resource_ownership (requests : List Request) (request : Request)
    (safe : Guarded call (fun s request => ¬ Interrupted s request) start
      (requests ++ [request])) :
    let before := (replay call start requests).1
    OneToOne (call before request).1 ∧
      ∀ fault, (call before request).2 = .error fault → Untouched before (call before request).1 := by
  intro before
  obtain ⟨earlier, last, _⟩ := (guarded_append _ _ _ _ _).mp safe
  have owned : Owned before :=
    replay_invariant_of call (fun s request => ¬ Interrupted s request) (fun s _ => Owned s)
      (fun s _ request safe h => (call_settles h request safe).1) start [] requests owned_start
      earlier
  have settles := call_settles owned request last
  exact ⟨settles.1.holds, settles.2⟩

theorem resource_ownership_transfer :
    let before := (replay call start
      [.spawnRoot ⟨"Main", "start", 0, none⟩, .spawnRoot ⟨"Main", "start", 0, none⟩,
        .register ⟨1⟩ ⟨"socket", "first"⟩ .transferable]).1
    OneToOne (call before (.transfer ⟨1⟩ ⟨1⟩ ⟨2⟩)).1 ∧
      ∀ fault, (call before (.transfer ⟨1⟩ ⟨1⟩ ⟨2⟩)).2 = .error fault →
        Untouched before (call before (.transfer ⟨1⟩ ⟨1⟩ ⟨2⟩)).1 :=
  resource_ownership
    [.spawnRoot ⟨"Main", "start", 0, none⟩, .spawnRoot ⟨"Main", "start", 0, none⟩,
      .register ⟨1⟩ ⟨"socket", "first"⟩ .transferable]
    (.transfer ⟨1⟩ ⟨1⟩ ⟨2⟩) ⟨id, id, by decide +kernel, by decide +kernel, trivial⟩

/-- A process with one resource, which a worker then executes. -/
def executedOwner : List Request :=
  [.spawnRoot ⟨"Main", "start", 0, none⟩, .register ⟨1⟩ ⟨"socket", "first"⟩ .ownerOnly,
    .markActorQueued ⟨1⟩, .acquireActorMutator ⟨1⟩ 7]

theorem resource_ownership_fails :
    ¬ ∀ (requests : List Request) (request : Request),
      let before := (replay call start requests).1
      OneToOne (call before request).1 ∧
        ∀ fault, (call before request).2 = .error fault →
          Untouched before (call before request).1 := by
  intro every
  obtain ⟨_, atomic⟩ := every executedOwner (.release ⟨1⟩ ⟨1⟩)
  rcases result : (call (replay call start executedOwner).1 (.release ⟨1⟩ ⟨1⟩)).2 with
    fault | answer
  · have same := congrArg (·.resources.size) (atomic fault result).1
    exact absurd same (by decide +kernel)
  have succeeded : (call (replay call start executedOwner).1 (.release ⟨1⟩ ⟨1⟩)).2.isOk =
      true := by
    rw [result]
    rfl
  exact absurd succeeded (by decide +kernel)

end Terlan.Resource
