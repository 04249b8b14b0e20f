/-
  The code server: every module has a list of generations, and every generation knows the
  processes that are bound to it.

  * Publication and promotion make one generation the active one; the active one before it is
    retired at once if no process is bound to it, and retiring otherwise.
  * A release may retire a retiring generation. Purging removes the retired ones.

  Generation ids count up and stop at the largest word, where two generations may have the same
  id; the operations take the first generation with the id.

  `Consistent` is what every operation keeps. `held` follows the bindings that were handed out
  and not released.
-/
import Terlan.Lib.Machine
import Terlan.Lib.Method
import Terlan.Lib.Replay
import Terlan.Lib.TreeMap

namespace Terlan.CodeServer

open Terlan.Lib List
open Std (ExtTreeMap ExtTreeSet)

/-! ## Changing the first that fits -/

section First

variable {α : Type} (p : α → Bool) (f : α → α)

/-- `iter_mut().find(p)`, and what is written through the reference. -/
def modifyFirst : List α → List α
  | [] => []
  | a :: as => if p a then f a :: as else a :: modifyFirst as

variable {p f}

theorem mem_modifyFirst {as : List α} {x : α} (mem : x ∈ modifyFirst p f as) :
    x ∈ as ∨ ∃ a ∈ as, p a = true ∧ x = f a := by
  induction as with
  | nil => cases mem
  | cons a as ih =>
    rw [modifyFirst] at mem
    split at mem
    next fits =>
      rcases mem_cons.mp mem with rfl | old
      · exact .inr ⟨a, by simp, fits, rfl⟩
      · exact .inl (by simp [old])
    next =>
      rcases mem_cons.mp mem with rfl | rest
      · exact .inl (by simp)
      · rcases ih rest with old | ⟨b, inList, fits, same⟩
        · exact .inl (by simp [old])
        · exact .inr ⟨b, by simp [inList], fits, same⟩

/-- What was in the list is still there, or it is the one that was changed. -/
theorem mem_modifyFirst_of_mem {as : List α} {x : α} (mem : x ∈ as) :
    x ∈ modifyFirst p f as ∨ as.find? p = some x ∧ f x ∈ modifyFirst p f as := by
  induction as with
  | nil => cases mem
  | cons a as ih =>
    by_cases fits : p a = true
    · rw [modifyFirst, if_pos fits, find?_cons_of_pos fits]
      rcases mem_cons.mp mem with rfl | rest
      · exact .inr ⟨rfl, by simp⟩
      · exact .inl (by simp [rest])
    · rw [modifyFirst, if_neg fits, find?_cons_of_neg fits]
      rcases mem_cons.mp mem with rfl | rest
      · exact .inl (by simp)
      · rcases ih rest with kept | ⟨found, changed⟩
        · exact .inl (by simp [kept])
        · exact .inr ⟨found, by simp [changed]⟩

theorem changed_mem_modifyFirst {as : List α} {a : α} (found : as.find? p = some a) :
    f a ∈ modifyFirst p f as := by
  induction as with
  | nil => cases found
  | cons b as ih =>
    rw [find?_cons] at found
    rw [modifyFirst]
    split at found
    next fits =>
      rw [← Option.some_inj.mp found, if_pos fits]
      exact mem_cons_self
    next other =>
      rw [if_neg (by simp [other])]
      exact mem_cons_of_mem b (ih found)

/-- Only what is done to the one that is found counts. -/
theorem modifyFirst_congr {g : α → α} {as : List α} {a : α} (found : as.find? p = some a)
    (same : f a = g a) : modifyFirst p f as = modifyFirst p g as := by
  induction as with
  | nil => rfl
  | cons b as ih =>
    rw [find?_cons] at found
    rw [modifyFirst, modifyFirst]
    split at found
    next fits => rw [Option.some_inj.mp found] at fits ⊢; rw [if_pos fits, if_pos fits, same]
    next other =>
      have skip : ¬ p b = true := by simp [other]
      rw [if_neg skip, if_neg skip, ih found]

/-- Changes that are not about `q` leave the number of `q` alone. -/
theorem countP_modifyFirst_of_iff {q : α → Bool} (same : ∀ a, p a = true → q (f a) = q a)
    (as : List α) : (modifyFirst p f as).countP q = as.countP q := by
  induction as with
  | nil => rfl
  | cons a as ih =>
    rw [modifyFirst]
    split
    next fits => rw [countP_cons, countP_cons, same a fits]
    next => rw [countP_cons, countP_cons, ih]

/-- The first of those with `p` is no longer one of them. -/
theorem countP_modifyFirst_self (away : ∀ a, p a = true → p (f a) = false) (as : List α) :
    (modifyFirst p f as).countP p = as.countP p - 1 := by
  induction as with
  | nil => rfl
  | cons a as ih =>
    rw [modifyFirst]
    split
    next fits => simp [fits, away a fits]
    next other =>
      have none : p a = false := by simpa using other
      simp [none, ih]

theorem modifyFirst_eq_self (same : ∀ a, p a = true → f a = a) (as : List α) :
    modifyFirst p f as = as := by
  induction as with
  | nil => rfl
  | cons a as ih =>
    rw [modifyFirst]
    split
    next fits => rw [same a fits]
    next => rw [ih]

theorem modify_findIdx {as : List α} {i : Nat} (found : as.findIdx? p = some i) :
    as.modify i f = modifyFirst p f as := by
  induction as generalizing i with
  | nil => cases found
  | cons a as ih =>
    rw [findIdx?_cons] at found
    rw [modifyFirst]
    split at found
    next fits =>
      rw [if_pos fits, ← Option.some_inj.mp found]
      rfl
    next other =>
      obtain ⟨j, rest, rfl⟩ := Option.map_eq_some_iff.mp found
      rw [if_neg other, modify_succ_cons, ih rest]

theorem countP_modify_le (q : α → Bool) (as : List α) (i : Nat) :
    (as.modify i f).countP q ≤ as.countP q + 1 := by
  induction as generalizing i with
  | nil => simp
  | cons a as ih =>
    cases i with
    | zero =>
      rw [modify_zero_cons, countP_cons, countP_cons]
      split <;> omega
    | succ i =>
      rw [modify_succ_cons, countP_cons, countP_cons]
      have rest := ih i
      omega

theorem mem_modify {as : List α} {i : Nat} {x : α} (mem : x ∈ as.modify i f) :
    x ∈ as ∨ ∃ a ∈ as, x = f a := by
  obtain ⟨j, found⟩ := mem_iff_getElem?.mp mem
  rw [getElem?_modify] at found
  obtain ⟨a, there, rfl⟩ := Option.map_eq_some_iff.mp found
  split
  · exact .inr ⟨a, mem_of_getElem? there, rfl⟩
  · exact .inl (mem_of_getElem? there)

theorem mem_modify_of_mem {as : List α} {i : Nat} {x : α} (mem : x ∈ as) :
    x ∈ as.modify i f ∨ f x ∈ as.modify i f := by
  obtain ⟨j, there⟩ := mem_iff_getElem?.mp mem
  have found := getElem?_modify f i as j
  rw [there] at found
  split at found
  · exact .inr (mem_of_getElem? found)
  · exact .inl (mem_of_getElem? found)

end First

/-! ## Generations -/

structure VmModuleArtifact where
  checksum : String
  sourceMapId : String
  exportedFunctions : List (String × List Nat)
  definedFunctions : List (String × List Nat)
deriving DecidableEq

inductive VmModuleGenerationState where
  | active
  | retiring
  | retired
deriving DecidableEq

structure VmCodeBinding where
  pid : UInt64
  module : String
  generation : UInt64
deriving DecidableEq

structure VmModuleGeneration where
  module : String
  generation : UInt64
  artifact : VmModuleArtifact
  state : VmModuleGenerationState
  activeProcesses : ExtTreeSet UInt64

namespace VmModuleGeneration

def isActive (generation : VmModuleGeneration) : Bool := generation.state = .active

/-- The state of a generation that is not active. -/
def restingState (processes : ExtTreeSet UInt64) : VmModuleGenerationState :=
  if processes.isEmpty then .retired else .retiring

/-- What becomes of the active generation when another takes its place. -/
def supersede (generation : VmModuleGeneration) : VmModuleGeneration :=
  { generation with state := restingState generation.activeProcesses }

def activate (generation : VmModuleGeneration) : VmModuleGeneration :=
  { generation with state := .active }

def bind (pid : UInt64) (generation : VmModuleGeneration) : VmModuleGeneration :=
  { generation with activeProcesses := generation.activeProcesses.insert pid }

def release (pid : UInt64) (generation : VmModuleGeneration) : VmModuleGeneration :=
  let left := generation.activeProcesses.erase pid
  { generation with
    activeProcesses := left
    state := if generation.state = .retiring ∧ left.isEmpty then .retired else generation.state }

end VmModuleGeneration

inductive VmCodeServerEvent where
  | published (module : String) (generation : UInt64)
  | hotReloaded (module : String) (previousGeneration : UInt64)
      (previousState : VmModuleGenerationState) (activeGeneration : UInt64)
  | generationRetired (module : String) (generation : UInt64)
  | generationPurged (module : String) (generation : UInt64)

structure VmCodeServerEventSnapshot where
  sequence : UInt64
  event : VmCodeServerEvent

/-! ## The server -/

structure VmCodeServer where
  nextGeneration : UInt64
  modules : ExtTreeMap String (List VmModuleGeneration)
  events : List VmCodeServerEventSnapshot

namespace VmCodeServer

def new : VmCodeServer := { nextGeneration := 0, modules := ∅, events := [] }

def generations (server : VmCodeServer) (module : String) : List VmModuleGeneration :=
  (server.modules[module]?).getD []

def setGenerations (server : VmCodeServer) (module : String)
    (generations : List VmModuleGeneration) : VmCodeServer :=
  { server with modules := server.modules.insert module generations }

def recordEvent (server : VmCodeServer) (event : VmCodeServerEvent) : VmCodeServer :=
  let sequence := UInt64.ofNat (min (server.events.length + 1) u64Max)
  { server with events := server.events ++ [{ sequence := sequence, event := event }] }

def publish (server : VmCodeServer) (module : String) (artifact : VmModuleArtifact) :
    VmCodeServer × VmCodeServerEvent :=
  let generation := saturatingAdd server.nextGeneration 1
  let generations := server.generations module
  let previous := (generations.find? VmModuleGeneration.isActive).map VmModuleGeneration.supersede
  let published : VmModuleGeneration :=
    { module := module, generation := generation, artifact := artifact, state := .active,
      activeProcesses := ∅ }
  let event :=
    match previous with
    | some previous => .hotReloaded module previous.generation previous.state generation
    | none => .published module generation
  let server : VmCodeServer := { server with nextGeneration := generation }
  let server := server.setGenerations module
    (modifyFirst VmModuleGeneration.isActive VmModuleGeneration.supersede generations ++ [published])
  (server.recordEvent event, event)

def noActive (module : String) : String := s!"module `{module}` has no active generation"

def noGeneration (module : String) (generation : UInt64) : String :=
  s!"module `{module}` has no generation {generation}"

/-- What `ensure_live_process` finds in the process table. -/
inductive ProcessEntry where
  | missing
  | exited
  | live

def ensureLiveProcess (entry : ProcessEntry) (pid : UInt64) : Except String Unit :=
  match entry with
  | .missing => .error s!"missing process {pid}"
  | .exited => .error s!"process {pid} has exited"
  | .live => .ok ()

def bindProcessToActive (server : VmCodeServer) (entry : ProcessEntry) (pid : UInt64)
    (module : String) : VmCodeServer × Except String VmCodeBinding :=
  match ensureLiveProcess entry pid with
  | .error error => (server, .error error)
  | .ok () =>
    match (server.generations module).find? VmModuleGeneration.isActive with
    | none => (server, .error (noActive module))
    | some active =>
      (server.setGenerations module
          (modifyFirst VmModuleGeneration.isActive (·.bind pid) (server.generations module)),
        .ok { pid := pid, module := module, generation := active.generation })

def releaseProcess (server : VmCodeServer) (binding : VmCodeBinding) :
    VmCodeServer × Except String (Option VmCodeServerEvent) :=
  match (server.generations binding.module).find? (·.generation = binding.generation) with
  | none => (server, .error (noGeneration binding.module binding.generation))
  | some generation =>
    if binding.pid ∈ generation.activeProcesses then
      let released := server.setGenerations binding.module
        (modifyFirst (·.generation = binding.generation) (·.release binding.pid)
          (server.generations binding.module))
      if generation.state = .retiring ∧ (generation.release binding.pid).state = .retired then
        let event := .generationRetired binding.module binding.generation
        (released.recordEvent event, .ok (some event))
      else (released, .ok none)
    else
      (server,
        .error (s!"process {binding.pid} is not bound to generation {binding.generation} " ++
          s!"for module `{binding.module}`"))

/-- `process_binding`: the one generation of the module to which the process is bound. -/
def processBinding (server : VmCodeServer) (pid : UInt64) (module : String) :
    Except String (Option VmCodeBinding) :=
  match (server.generations module).filter (pid ∈ ·.activeProcesses) with
  | [] => .ok none
  | [generation] => .ok (some { pid := pid, module := module, generation := generation.generation })
  | _ :: _ :: _ => .error s!"process {pid} has multiple code bindings for module `{module}`"

def switchProcessToActive (server : VmCodeServer) (entry : ProcessEntry) (pid : UInt64)
    (module : String) :
    VmCodeServer × Except String (VmCodeBinding × Option VmCodeServerEvent) :=
  match ensureLiveProcess entry pid with
  | .error error => (server, .error error)
  | .ok () =>
    match (server.generations module).find? VmModuleGeneration.isActive with
    | none => (server, .error (noActive module))
    | some active =>
      match server.processBinding pid module with
      | .error error => (server, .error error)
      | .ok none =>
        let (server, binding) := server.bindProcessToActive entry pid module
        (server, binding.map fun binding => (binding, none))
      | .ok (some previous) =>
        if previous.generation = active.generation then (server, .ok (previous, none))
        else
          match server.releaseProcess previous with
          | (server, .error error) => (server, .error error)
          | (server, .ok retirement) =>
            let (server, binding) := server.bindProcessToActive entry pid module
            (server, binding.map fun binding => (binding, retirement))

/-- The bindings of a process, over all modules in their order. -/
def processBindings (server : VmCodeServer) (pid : UInt64) : List VmCodeBinding :=
  server.modules.toList.flatMap fun entry =>
    (entry.2.filter (pid ∈ ·.activeProcesses)).map fun generation =>
      { pid := pid, module := entry.1, generation := generation.generation }

/-- One turn of the loop: the event of the release, if there is one, joins the others. -/
def releaseNext (events : List VmCodeServerEvent) (binding : VmCodeBinding) :
    Method String VmCodeServer (List VmCodeServerEvent) := do
  let event ← .ofCall fun server => server.releaseProcess binding
  return events ++ event.toList

def releaseProcessBindings (server : VmCodeServer) (pid : UInt64) :
    VmCodeServer × Except String (List VmCodeServerEvent) :=
  Method.call ((server.processBindings pid).foldlM releaseNext []) server

def purgeRetiredGenerations (server : VmCodeServer) (module : String) :
    VmCodeServer × Except String (List VmCodeServerEvent) :=
  match server.modules[module]? with
  | none => (server, .error s!"module `{module}` has no generations")
  | some generations =>
    let purged := generations.filter (·.state = .retired)
    let events := purged.map fun generation => .generationPurged module generation.generation
    let server := server.setGenerations module (generations.filter (·.state ≠ .retired))
    (events.foldl recordEvent server, .ok events)

def unloadActiveGeneration (server : VmCodeServer) (module : String) :
    VmCodeServer × Except String VmCodeServerEvent :=
  match (server.generations module).find? VmModuleGeneration.isActive with
  | none => (server, .error (noActive module))
  | some active =>
    if active.activeProcesses.isEmpty then
      let event := .generationRetired module active.generation
      ((server.setGenerations module
          (modifyFirst VmModuleGeneration.isActive
            (fun generation => { generation with state := .retired })
            (server.generations module))).recordEvent event,
        .ok event)
    else
      (server,
        .error (s!"cannot unload active generation {active.generation} for module `{module}`: " ++
          s!"{active.activeProcesses.size} process binding(s) remain"))

/-- The generations after a promotion of the one at `target`. -/
def promoted (generations : List VmModuleGeneration) (target : Nat) : List VmModuleGeneration :=
  let previous := (generations.findIdx? VmModuleGeneration.isActive).getD target
  let superseded :=
    if previous ≠ target then generations.modify previous VmModuleGeneration.supersede
    else generations
  superseded.modify target VmModuleGeneration.activate

/-- The generation that a promotion takes the place of, as it is after that. -/
def promotedOver (generations : List VmModuleGeneration) (target : Nat)
    (chosen : VmModuleGeneration) : VmModuleGeneration :=
  match generations.findIdx? VmModuleGeneration.isActive with
  | none => chosen
  | some previous =>
    let active := generations.getD previous chosen
    if previous ≠ target then active.supersede else active

def promoteGeneration (server : VmCodeServer) (module : String) (generation : UInt64)
    (expectedArtifact : VmModuleArtifact) : VmCodeServer × Except String VmCodeServerEvent :=
  match (server.generations module).findIdx? (·.generation = generation),
      (server.generations module).find? (·.generation = generation) with
  | some target, some chosen =>
    if chosen.artifact ≠ expectedArtifact then
      (server,
        .error (s!"generation {generation} for module `{module}` has checksum " ++
          s!"`{chosen.artifact.checksum}` and source map `{chosen.artifact.sourceMapId}`, " ++
          s!"expected checksum `{expectedArtifact.checksum}` and source map " ++
          s!"`{expectedArtifact.sourceMapId}`"))
    else
      let previous := promotedOver (server.generations module) target chosen
      let event := .hotReloaded module previous.generation previous.state generation
      ((server.setGenerations module
          (promoted (server.generations module) target)).recordEvent event,
        .ok event)
  | _, _ => (server, .error (noGeneration module generation))

end VmCodeServer

/-! ## What every operation keeps -/

/-- A generation that is not active is retiring while a process is bound to it. -/
def Settled (generation : VmModuleGeneration) : Prop :=
  generation.state = .active ∨
    generation.state = VmModuleGeneration.restingState generation.activeProcesses

structure WellKept (module : String) (generations : List VmModuleGeneration) : Prop where
  named : ∀ generation ∈ generations, generation.module = module
  settled : ∀ generation ∈ generations, Settled generation
  single : generations.countP VmModuleGeneration.isActive ≤ 1

def Consistent (server : VmCodeServer) : Prop :=
  ∀ module, WellKept module (server.generations module)

/-- The process is bound to a generation with the id. -/
def BoundIn (generations : List VmModuleGeneration) (id pid : UInt64) : Prop :=
  ∃ generation ∈ generations, generation.generation = id ∧ pid ∈ generation.activeProcesses

/-- The binding names a generation of its module to which its process is bound. -/
def Bound (server : VmCodeServer) (binding : VmCodeBinding) : Prop :=
  BoundIn (server.generations binding.module) binding.generation binding.pid

open VmCodeServer

theorem VmModuleGeneration.release_state (pid : UInt64) (generation : VmModuleGeneration) :
    (generation.release pid).state =
      if generation.state = .retiring ∧ (generation.activeProcesses.erase pid).isEmpty then .retired
      else generation.state := rfl

theorem VmModuleGeneration.release_activeProcesses (pid : UInt64)
    (generation : VmModuleGeneration) :
    (generation.release pid).activeProcesses = generation.activeProcesses.erase pid := rfl

theorem isEmpty_iff_forall {set : ExtTreeSet UInt64} : set.isEmpty = true ↔ ∀ pid, pid ∉ set :=
  ExtTreeSet.isEmpty_iff.trans ExtTreeSet.eq_empty_iff_forall_not_mem

theorem restingState_of_mem {processes : ExtTreeSet UInt64} {pid : UInt64}
    (mem : pid ∈ processes) : VmModuleGeneration.restingState processes = .retiring :=
  if_neg fun empty => isEmpty_iff_forall.mp empty pid mem

theorem restingState_of_forall {processes : ExtTreeSet UInt64} (none : ∀ pid, pid ∉ processes) :
    VmModuleGeneration.restingState processes = .retired :=
  if_pos (isEmpty_iff_forall.mpr none)

namespace Settled

variable {generation : VmModuleGeneration}

theorem retiring_iff (settled : Settled generation) : generation.state = .retiring ↔
      generation.state ≠ .active ∧ ∃ pid, pid ∈ generation.activeProcesses := by
  rcases settled with active | resting
  · simp [active]
  by_cases bound : ∃ pid, pid ∈ generation.activeProcesses
  · obtain ⟨pid, mem⟩ := bound
    rw [resting, restingState_of_mem mem]
    simp only [ne_eq, reduceCtorEq, not_false_eq_true, true_and, true_iff]
    exact ⟨pid, mem⟩
  · rw [resting, restingState_of_forall (not_exists.mp bound)]
    simp [bound]

theorem not_retired (settled : Settled generation) {pid : UInt64}
    (mem : pid ∈ generation.activeProcesses) : generation.state ≠ .retired := by
  rcases settled with active | resting
  · simp [active]
  · simp [resting, restingState_of_mem mem]

theorem supersede (generation : VmModuleGeneration) : Settled generation.supersede := .inr rfl

theorem activate (generation : VmModuleGeneration) : Settled generation.activate := .inl rfl

theorem bind (active : generation.isActive = true) (pid : UInt64) : Settled (generation.bind pid) :=
  .inl (of_decide_eq_true active)

theorem release (settled : Settled generation) (pid : UInt64) :
    Settled (generation.release pid) := by
  rw [Settled, VmModuleGeneration.release_state, VmModuleGeneration.release_activeProcesses]
  rcases settled with active | resting
  · left
    rw [active]
    exact if_neg fun h : _ = VmModuleGenerationState.retiring ∧ _ => absurd h.1 (by decide)
  right
  by_cases left : ∃ other, other ∈ generation.activeProcesses.erase pid
  · -- A process is left, so one was there before.
    obtain ⟨other, mem⟩ := left
    have before := restingState_of_mem ((mem_set_erase_iff _ _ _).mp mem).2
    rw [restingState_of_mem mem, resting, before]
    exact if_neg fun h => isEmpty_iff_forall.mp h.2 other mem
  · have none := not_exists.mp left
    rw [restingState_of_forall none, resting]
    split
    next => rfl
    next idle =>
      by_cases before : ∃ other, other ∈ generation.activeProcesses
      · obtain ⟨other, mem⟩ := before
        exact absurd ⟨restingState_of_mem mem, isEmpty_iff_forall.mpr none⟩ idle
      · exact restingState_of_forall (not_exists.mp before)

end Settled

theorem isActive_release (pid : UInt64) (generation : VmModuleGeneration) :
    (generation.release pid).isActive = generation.isActive := by
  rw [VmModuleGeneration.isActive, VmModuleGeneration.release_state]
  split
  next retired => rw [VmModuleGeneration.isActive, retired.1]; rfl
  next => rfl

theorem isActive_supersede (generation : VmModuleGeneration) :
    generation.supersede.isActive = false := by
  unfold VmModuleGeneration.supersede VmModuleGeneration.isActive VmModuleGeneration.restingState
  cases generation.activeProcesses.isEmpty <;> rfl

namespace WellKept

variable {module : String} {generations : List VmModuleGeneration}

section

variable (kept : WellKept module generations)
include kept

/-- One generation changes, and no other becomes active. -/
theorem modifyFirst {p : VmModuleGeneration → Bool}
    {f : VmModuleGeneration → VmModuleGeneration} (named : ∀ g, (f g).module = g.module)
    (settled : ∀ g, p g = true → Settled g → Settled (f g))
    (count : (CodeServer.modifyFirst p f generations).countP VmModuleGeneration.isActive ≤ 1) :
    WellKept module (CodeServer.modifyFirst p f generations) where
  named := by
    intro generation mem
    rcases mem_modifyFirst mem with old | ⟨g, inList, _, rfl⟩
    · exact kept.named generation old
    · rw [named, kept.named g inList]
  settled := by
    intro generation mem
    rcases mem_modifyFirst mem with old | ⟨g, inList, fits, rfl⟩
    · exact kept.settled generation old
    · exact settled g fits (kept.settled g inList)
  single := count

theorem countP_supersede :
    (CodeServer.modifyFirst VmModuleGeneration.isActive VmModuleGeneration.supersede
      generations).countP VmModuleGeneration.isActive = 0 := by
  have single := kept.single
  rw [countP_modifyFirst_self (fun g _ => isActive_supersede g)]
  omega

theorem publish {published : VmModuleGeneration}
    (named : published.module = module) (settled : Settled published) : WellKept module
      (CodeServer.modifyFirst VmModuleGeneration.isActive VmModuleGeneration.supersede generations ++
        [published]) := by
  have count := kept.countP_supersede
  have superseded := kept.modifyFirst (p := VmModuleGeneration.isActive)
    (f := VmModuleGeneration.supersede) (fun _ => rfl) (fun g _ _ => Settled.supersede g) (by omega)
  exact {
    named := by
      intro generation mem
      rcases mem_append.mp mem with old | new
      · exact superseded.named generation old
      · rw [mem_singleton.mp new, named]
    settled := by
      intro generation mem
      rcases mem_append.mp mem with old | new
      · exact superseded.settled generation old
      · rw [mem_singleton.mp new]
        exact settled
    single := by
      have one := countP_le_length (p := VmModuleGeneration.isActive) (l := [published])
      rw [countP_append, count, Nat.zero_add]
      exact one }

theorem bind (pid : UInt64) : WellKept module
      (CodeServer.modifyFirst VmModuleGeneration.isActive (·.bind pid) generations) := by
  refine kept.modifyFirst (fun _ => rfl) (fun g active _ => Settled.bind active pid) ?_
  have count := countP_modifyFirst_of_iff (p := VmModuleGeneration.isActive) (f := (·.bind pid))
    (q := VmModuleGeneration.isActive) (fun _ _ => rfl) generations
  rw [count]
  exact kept.single

theorem release (p : VmModuleGeneration → Bool)
    (pid : UInt64) : WellKept module (CodeServer.modifyFirst p (·.release pid) generations) := by
  refine kept.modifyFirst (fun _ => rfl) (fun g _ settled => settled.release pid) ?_
  rw [countP_modifyFirst_of_iff fun g _ => isActive_release pid g]
  exact kept.single

theorem purge :
    WellKept module (generations.filter (·.state ≠ .retired)) where
  named := fun generation mem => kept.named generation (mem_filter.mp mem).1
  settled := fun generation mem => kept.settled generation (mem_filter.mp mem).1
  single := Nat.le_trans (List.Sublist.countP_le filter_sublist) kept.single

theorem promoted (target : Nat) :
    WellKept module (promoted generations target) := by
  -- After the active generation has given way none is active.
  have superseded : WellKept module (CodeServer.modifyFirst VmModuleGeneration.isActive
      VmModuleGeneration.supersede generations) :=
    kept.modifyFirst (fun _ => rfl) (fun g _ _ => Settled.supersede g)
      (by rw [kept.countP_supersede]; exact Nat.zero_le 1)
  have activated {others : List VmModuleGeneration} (keptOthers : WellKept module others)
      (single : (others.modify target VmModuleGeneration.activate).countP
        VmModuleGeneration.isActive ≤ 1) :
      WellKept module (others.modify target VmModuleGeneration.activate) := by
    exact {
      named := by
        intro generation mem
        rcases mem_modify mem with old | ⟨g, inList, rfl⟩
        · exact keptOthers.named generation old
        · exact keptOthers.named g inList
      settled := by
        intro generation mem
        rcases mem_modify mem with old | ⟨g, inList, rfl⟩
        · exact keptOthers.settled generation old
        · exact Settled.activate g
      single := single }
  have fromNone {others : List VmModuleGeneration}
      (none : others.countP VmModuleGeneration.isActive = 0) :
      (others.modify target VmModuleGeneration.activate).countP VmModuleGeneration.isActive ≤ 1 := by
    have le := countP_modify_le (f := VmModuleGeneration.activate) VmModuleGeneration.isActive
      others target
    rwa [none, Nat.zero_add] at le
  unfold VmCodeServer.promoted
  cases found : generations.findIdx? VmModuleGeneration.isActive with
  | none =>
    have inactive : generations.countP VmModuleGeneration.isActive = 0 := by
      rw [countP_eq_zero]
      intro g mem active
      exact absurd active (by simp [findIdx?_eq_none_iff.mp found g mem])
    simp only [Option.getD_none, ne_eq, not_true, if_false]
    exact activated kept (fromNone inactive)
  | some previous =>
    by_cases other : previous ≠ target
    · simp only [Option.getD_some, if_pos other, modify_findIdx found]
      exact activated superseded (fromNone kept.countP_supersede)
    simp only [Option.getD_some, if_neg other]
    refine activated kept ?_
    -- The target is the active generation itself.
    have same : generations.modify target VmModuleGeneration.activate = generations := by
      rw [← not_not.mp other, modify_findIdx found]
      refine modifyFirst_eq_self (fun g active => ?_) generations
      have state : g.state = .active := of_decide_eq_true active
      unfold VmModuleGeneration.activate
      rw [← state]
    rw [same]
    exact kept.single

end

end WellKept

namespace BoundIn

variable {generations : List VmModuleGeneration} {id pid : UInt64}

/-- A change that takes no process from a generation takes no binding away. -/
theorem modifyFirst (bound : BoundIn generations id pid) {p : VmModuleGeneration → Bool}
    {f : VmModuleGeneration → VmModuleGeneration} (names : ∀ g, (f g).generation = g.generation)
    (keeps : ∀ g, pid ∈ g.activeProcesses → pid ∈ (f g).activeProcesses) :
    BoundIn (CodeServer.modifyFirst p f generations) id pid := by
  obtain ⟨g, inList, rfl, mem⟩ := bound
  rcases mem_modifyFirst_of_mem (p := p) (f := f) inList with kept | ⟨_, changed⟩
  · exact ⟨g, kept, rfl, mem⟩
  · exact ⟨f g, changed, names g, keeps g mem⟩

theorem modify (bound : BoundIn generations id pid) {f : VmModuleGeneration → VmModuleGeneration}
    (names : ∀ g, (f g).generation = g.generation)
    (keeps : ∀ g, (f g).activeProcesses = g.activeProcesses) (i : Nat) :
    BoundIn (generations.modify i f) id pid := by
  obtain ⟨g, inList, rfl, mem⟩ := bound
  rcases mem_modify_of_mem (f := f) (i := i) inList with kept | changed
  · exact ⟨g, kept, rfl, mem⟩
  · exact ⟨f g, changed, names g, (keeps g).symm ▸ mem⟩

theorem append (bound : BoundIn generations id pid) (more : List VmModuleGeneration) :
    BoundIn (generations ++ more) id pid := by
  obtain ⟨g, inList, rest⟩ := bound
  exact ⟨g, mem_append_left _ inList, rest⟩

theorem bind (bound : BoundIn generations id pid) (other : UInt64) :
    BoundIn (CodeServer.modifyFirst VmModuleGeneration.isActive (·.bind other) generations)
      id pid :=
  bound.modifyFirst (fun _ => rfl) fun _ mem => (mem_set_insert_iff _ _ _).mpr (.inr mem)

theorem release (bound : BoundIn generations id pid) {released from_ : UInt64}
    (other : ¬ (from_ = id ∧ released = pid)) :
    BoundIn (CodeServer.modifyFirst (·.generation = from_) (·.release released) generations)
      id pid := by
  obtain ⟨g, inList, rfl, mem⟩ := bound
  rcases mem_modifyFirst_of_mem (p := (·.generation = from_)) (f := (·.release released)) inList
    with kept | ⟨found, changed⟩
  · exact ⟨g, kept, rfl, mem⟩
  · have same : g.generation = from_ := by simpa using find?_some found
    have ne : released ≠ pid := fun h => other ⟨same.symm, h⟩
    exact ⟨_, changed, rfl, (mem_set_erase_iff _ _ _).mpr ⟨ne, mem⟩⟩

theorem promoted (bound : BoundIn generations id pid) (target : Nat) :
    BoundIn (promoted generations target) id pid := by
  unfold VmCodeServer.promoted
  refine BoundIn.modify (f := VmModuleGeneration.activate) ?_ (fun _ => rfl) (fun _ => rfl) target
  split
  next =>
    exact bound.modify (f := VmModuleGeneration.supersede) (fun _ => rfl) (fun _ => rfl) _
  next => exact bound

/-- Purging takes no generation to which a process is bound. -/
theorem purge (bound : BoundIn generations id pid) {module : String}
    (kept : WellKept module generations) :
    BoundIn (generations.filter (·.state ≠ .retired)) id pid := by
  obtain ⟨g, inList, rfl, mem⟩ := bound
  refine ⟨g, mem_filter.mpr ⟨inList, ?_⟩, rfl, mem⟩
  simpa using (kept.settled g inList).not_retired mem

end BoundIn

/-! ## The operations -/

section Operations

variable {server : VmCodeServer}

theorem generations_setGenerations (server : VmCodeServer) (module other : String)
    (generations : List VmModuleGeneration) :
    (server.setGenerations module generations).generations other =
      if module = other then generations else server.generations other := by
  unfold VmCodeServer.generations setGenerations
  rw [getElem?_insert_eq]
  split
  next => rfl
  next => rfl

/-- One module changes. -/
theorem Consistent.set (consistent : Consistent server) {module : String}
    {generations : List VmModuleGeneration} (kept : WellKept module generations) :
    Consistent (server.setGenerations module generations) := by
  intro other
  rw [generations_setGenerations]
  split
  next same => rw [← same]; exact kept
  next => exact consistent other

theorem Bound.set {binding : VmCodeBinding} (bound : Bound server binding) {module : String}
    {generations : List VmModuleGeneration}
    (kept : module = binding.module → BoundIn generations binding.generation binding.pid) :
    Bound (server.setGenerations module generations) binding := by
  unfold Bound
  rw [generations_setGenerations]
  split
  next same => exact kept same
  next => exact bound

section

variable (consistent : Consistent server)
include consistent

theorem consistent_publish (module : String)
    (artifact : VmModuleArtifact) : Consistent (server.publish module artifact).1 :=
  @Consistent.set { server with nextGeneration := _ } consistent _ _
    ((consistent module).publish rfl (.inl rfl))

theorem consistent_bind (entry : ProcessEntry) (pid : UInt64)
    (module : String) : Consistent (server.bindProcessToActive entry pid module).1 := by
  unfold bindProcessToActive
  split
  · exact consistent
  split
  next => exact consistent
  next => exact consistent.set ((consistent module).bind pid)

theorem consistent_release (binding : VmCodeBinding) :
    Consistent (server.releaseProcess binding).1 := by
  unfold releaseProcess
  split
  next => exact consistent
  next generation _ =>
    have released := consistent.set
      ((consistent binding.module).release (·.generation = binding.generation) binding.pid)
    split
    next =>
      split
      next => exact released
      next => exact released
    next => exact consistent

end

theorem keeps_consistent_releaseNext (events : List VmCodeServerEvent) (binding : VmCodeBinding) :
    Keeps Consistent (releaseNext events binding) := by
  unfold releaseNext
  exact keeps_bind (fun _ consistent => consistent_release consistent binding) fun _ => keeps_pure _

theorem consistent_releaseBindings (consistent : Consistent server) (pid : UInt64) :
    Consistent (server.releaseProcessBindings pid).1 :=
  keeps_foldlM keeps_consistent_releaseNext (server.processBindings pid) [] server consistent

theorem generations_foldl_recordEvent (server : VmCodeServer) (events : List VmCodeServerEvent)
    (module : String) :
    (events.foldl recordEvent server).generations module = server.generations module := by
  induction events generalizing server with
  | nil => rfl
  | cons event events ih => exact ih (server.recordEvent event)

theorem consistent_purge (consistent : Consistent server) (module : String) :
    Consistent (server.purgeRetiredGenerations module).1 := by
  unfold purgeRetiredGenerations
  cases found : server.modules[module]? with
  | none => exact consistent
  | some generations =>
    have kept := consistent module
    rw [VmCodeServer.generations, found] at kept
    intro other
    rw [generations_foldl_recordEvent]
    exact consistent.set kept.purge other

theorem consistent_unload (consistent : Consistent server) (module : String) :
    Consistent (server.unloadActiveGeneration module).1 := by
  unfold unloadActiveGeneration
  split
  next => exact consistent
  next active found =>
    split
    next idle =>
      have same := modifyFirst_congr
        (f := fun generation : VmModuleGeneration => { generation with state := .retired })
        (g := VmModuleGeneration.supersede) found
        (by rw [VmModuleGeneration.supersede, VmModuleGeneration.restingState, if_pos idle])
      rw [same]
      have kept := consistent module
      exact consistent.set (kept.modifyFirst (fun _ => rfl) (fun g _ _ => Settled.supersede g)
        (by rw [kept.countP_supersede]; exact Nat.zero_le 1))
    next => exact consistent

theorem consistent_promote (consistent : Consistent server) (module : String)
    (generation : UInt64) (artifact : VmModuleArtifact) :
    Consistent (server.promoteGeneration module generation artifact).1 := by
  unfold promoteGeneration
  split
  next target _ _ _ =>
    split
    next => exact consistent
    next => exact consistent.set ((consistent module).promoted target)
  next => exact consistent

variable {binding : VmCodeBinding}

theorem bound_publish (bound : Bound server binding) (module : String)
    (artifact : VmModuleArtifact) : Bound (server.publish module artifact).1 binding :=
  @Bound.set { server with nextGeneration := _ } binding bound _ _ fun same =>
    ((same ▸ bound : BoundIn (server.generations module) _ _).modifyFirst
      (f := VmModuleGeneration.supersede) (fun _ => rfl) (fun _ mem => mem)).append _

theorem bound_bind (bound : Bound server binding) (entry : ProcessEntry) (pid : UInt64)
    (module : String) : Bound (server.bindProcessToActive entry pid module).1 binding := by
  unfold bindProcessToActive
  split
  · exact bound
  split
  next => exact bound
  next => exact bound.set fun same => BoundIn.bind (same ▸ bound) pid

/-- The binding that is handed out is in effect. -/
theorem bound_bind_self {entry : ProcessEntry} {pid : UInt64} {module : String}
    {granted : VmCodeBinding} (ok : (server.bindProcessToActive entry pid module).2 = .ok granted) :
    Bound (server.bindProcessToActive entry pid module).1 granted := by
  unfold bindProcessToActive at ok ⊢
  split at ok
  next => cases ok
  next live =>
    split at ok
    next => cases ok
    next active found =>
      cases ok
      refine ⟨active.bind pid, ?_, rfl, (mem_set_insert_iff _ _ _).mpr (.inl rfl)⟩
      rw [generations_setGenerations, if_pos rfl]
      exact changed_mem_modifyFirst found

theorem bound_release (bound : Bound server binding) {released : VmCodeBinding}
    (other : released ≠ binding) : Bound (server.releaseProcess released).1 binding := by
  have kept (same : released.module = binding.module) :
      BoundIn (modifyFirst (·.generation = released.generation) (·.release released.pid)
        (server.generations released.module)) binding.generation binding.pid := by
    refine BoundIn.release (same ▸ bound) fun h => other ?_
    cases released
    cases binding
    simp only [VmCodeBinding.mk.injEq]
    exact ⟨h.2, same, h.1⟩
  have changed := bound.set kept
  unfold releaseProcess
  split
  · exact bound
  split
  next =>
    split
    next => exact changed
    next => exact changed
  next => exact bound

theorem releaseProcess_error {released : VmCodeBinding} {error : String}
    (failed : (server.releaseProcess released).2 = .error error) :
    (server.releaseProcess released).1 = server := by
  unfold releaseProcess at failed ⊢
  split at failed
  next => rfl
  next generation found =>
    dsimp only
    split at failed
    next mem =>
      split at failed
      next => cases failed
      next => cases failed
    next free => rw [if_neg free]

/-- A release leaves an active generation where there was one. -/
theorem find_active_release {module : String} {active : VmModuleGeneration}
    (found : (server.generations module).find? VmModuleGeneration.isActive = some active)
    (released : VmCodeBinding) :
    ∃ still, ((server.releaseProcess released).1.generations module).find?
      VmModuleGeneration.isActive = some still := by
  have positive : 0 < (server.generations module).countP VmModuleGeneration.isActive :=
    countP_pos_iff.mpr ⟨active, mem_of_find?_eq_some found, find?_some found⟩
  have count : ((server.releaseProcess released).1.generations module).countP
      VmModuleGeneration.isActive =
        (server.generations module).countP VmModuleGeneration.isActive := by
    have changed : ((server.setGenerations released.module
        (modifyFirst (·.generation = released.generation) (·.release released.pid)
          (server.generations released.module))).generations module).countP
            VmModuleGeneration.isActive =
          (server.generations module).countP VmModuleGeneration.isActive := by
      rw [generations_setGenerations]
      split
      next same =>
        rw [← same]
        exact countP_modifyFirst_of_iff (fun g _ => isActive_release released.pid g) _
      next => rfl
    unfold releaseProcess
    split
    · rfl
    split
    next =>
      split
      next => exact changed
      next => exact changed
    next => rfl
  rw [← count] at positive
  obtain ⟨still, mem, isActive⟩ := countP_pos_iff.mp positive
  exact Option.isSome_iff_exists.mp (find?_isSome.mpr ⟨still, mem, isActive⟩)

theorem processBinding_some {pid : UInt64} {module : String}
    (ok : server.processBinding pid module = .ok (some binding)) :
    binding.pid = pid ∧ binding.module = module ∧ Bound server binding := by
  unfold processBinding at ok
  split at ok
  next => cases ok
  next generation only =>
    cases ok
    have mem : generation ∈ (server.generations module).filter (pid ∈ ·.activeProcesses) := by
      simp [only]
    obtain ⟨inList, isBound⟩ := mem_filter.mp mem
    exact ⟨rfl, rfl, generation, inList, rfl, of_decide_eq_true isBound⟩
  next => cases ok

theorem bind_ok {entry : ProcessEntry} {pid : UInt64} {module : String}
    {active : VmModuleGeneration} (live : ensureLiveProcess entry pid = .ok ())
    (found : (server.generations module).find? VmModuleGeneration.isActive = some active) :
    ∃ granted, (server.bindProcessToActive entry pid module).2 = .ok granted := by
  unfold bindProcessToActive
  simp only [live, found]
  exact ⟨_, rfl⟩

/-- A switch changes nothing, and what it grants is in effect, or it binds, behind a release if
there was a binding. The bind cannot fail then. -/
theorem switch_cases (server : VmCodeServer) (entry : ProcessEntry) (pid : UInt64)
    (module : String) :
    ((server.switchProcessToActive entry pid module).1 = server ∧ ∀ granted event,
      (server.switchProcessToActive entry pid module).2 = .ok (granted, event) →
        Bound server granted) ∨
    ∃ before granted event, (before = server ∨ ∃ previous,
        server.processBinding pid module = .ok (some previous) ∧
          before = (server.releaseProcess previous).1) ∧
      (before.bindProcessToActive entry pid module).2 = .ok granted ∧
        server.switchProcessToActive entry pid module =
          ((before.bindProcessToActive entry pid module).1, .ok (granted, event)) := by
  unfold switchProcessToActive
  split
  · exact .inl ⟨rfl, nofun⟩
  next live =>
    split
    · exact .inl ⟨rfl, nofun⟩
    next active found =>
      split
      · exact .inl ⟨rfl, nofun⟩
      · obtain ⟨granted, ok⟩ := bind_ok live found
        exact .inr ⟨server, granted, none, .inl rfl, ok, by simp only [ok]; rfl⟩
      next previous current =>
        split
        · refine .inl ⟨rfl, fun _ _ same => ?_⟩
          cases same
          exact (processBinding_some current).2.2
        split
        next released error run =>
          have same := releaseProcess_error (congrArg Prod.snd run)
          rw [run] at same
          exact .inl ⟨same, nofun⟩
        next released retirement run =>
          obtain ⟨still, active⟩ := find_active_release found previous
          rw [run] at active
          obtain ⟨granted, ok⟩ := bind_ok live active
          exact .inr ⟨released, granted, retirement, .inr ⟨previous, current, by rw [run]⟩, ok,
            by simp only [ok]; rfl⟩

theorem consistent_switch (consistent : Consistent server) (entry : ProcessEntry) (pid : UInt64)
    (module : String) : Consistent (server.switchProcessToActive entry pid module).1 := by
  rcases switch_cases server entry pid module with ⟨same, -⟩ | ⟨before, _, _, origin, -, run⟩
  · rw [same]
    exact consistent
  rw [run]
  refine consistent_bind ?_ entry pid module
  rcases origin with rfl | ⟨previous, -, rfl⟩
  · exact consistent
  · exact consistent_release consistent previous

/-- A switch keeps the bindings of other processes and to other modules; one that fails keeps
all of them. -/
theorem bound_switch (bound : Bound server binding) {entry : ProcessEntry} {pid : UInt64}
    {module : String} (other : ¬ (binding.pid = pid ∧ binding.module = module) ∨
      ∃ error, (server.switchProcessToActive entry pid module).2 = .error error) :
    Bound (server.switchProcessToActive entry pid module).1 binding := by
  rcases switch_cases server entry pid module with ⟨same, -⟩ | ⟨before, _, _, origin, -, run⟩
  · rw [same]
    exact bound
  rw [run] at other ⊢
  refine bound_bind ?_ entry pid module
  rcases origin with rfl | ⟨previous, current, rfl⟩
  · exact bound
  · obtain ⟨ownPid, ownModule, -⟩ := processBinding_some current
    refine bound_release bound ?_
    rintro rfl
    exact other.elim (· ⟨ownPid, ownModule⟩) nofun

theorem bound_switch_self {entry : ProcessEntry} {pid : UInt64} {module : String}
    {granted : VmCodeBinding} {event : Option VmCodeServerEvent}
    (ok : (server.switchProcessToActive entry pid module).2 = .ok (granted, event)) :
    Bound (server.switchProcessToActive entry pid module).1 granted := by
  rcases switch_cases server entry pid module with ⟨same, held⟩ | ⟨_, _, _, -, bindOk, run⟩
  · rw [same]
    exact held granted event ok
  · rw [run] at ok ⊢
    cases ok
    exact bound_bind_self bindOk

theorem pid_of_mem_processBindings {pid : UInt64} (mem : binding ∈ server.processBindings pid) :
    binding.pid = pid := by
  unfold processBindings at mem
  obtain ⟨entry, -, mem⟩ := mem_flatMap.mp mem
  obtain ⟨generation, -, rfl⟩ := mem_map.mp mem
  rfl

theorem bound_releaseBindings (bound : Bound server binding) {pid : UInt64}
    (other : binding.pid ≠ pid) : Bound (server.releaseProcessBindings pid).1 binding := by
  have loop (bindings : List VmCodeBinding) (own : ∀ b ∈ bindings, b.pid = pid) :
      ∀ events, Keeps (Bound · binding) (bindings.foldlM releaseNext events) := by
    induction bindings with
    | nil => exact fun events => keeps_pure events
    | cons first bindings ih =>
      intro events
      rw [foldlM_cons]
      refine keeps_bind ?_ (ih fun b mem => own b (mem_cons_of_mem _ mem))
      unfold releaseNext
      refine keeps_bind (fun s h => bound_release h ?_) fun _ => keeps_pure _
      rintro rfl
      exact other (own _ mem_cons_self)
  exact loop _ (fun b mem => pid_of_mem_processBindings mem) [] server bound

theorem bound_purge (consistent : Consistent server) (bound : Bound server binding)
    (module : String) : Bound (server.purgeRetiredGenerations module).1 binding := by
  unfold purgeRetiredGenerations
  cases found : server.modules[module]? with
  | none => exact bound
  | some generations =>
    have kept := consistent module
    rw [VmCodeServer.generations, found] at kept
    unfold Bound
    rw [generations_foldl_recordEvent]
    refine bound.set fun same => BoundIn.purge ?_ kept
    rw [Bound, ← same, VmCodeServer.generations, found] at bound
    exact bound

theorem bound_unload (bound : Bound server binding) (module : String) :
    Bound (server.unloadActiveGeneration module).1 binding := by
  unfold unloadActiveGeneration
  split
  · exact bound
  split
  next =>
    exact bound.set fun same =>
      BoundIn.modifyFirst (same ▸ bound) (fun _ => rfl) fun _ mem => mem
  next => exact bound

theorem bound_promote (bound : Bound server binding) (module : String) (generation : UInt64)
    (artifact : VmModuleArtifact) :
    Bound (server.promoteGeneration module generation artifact).1 binding := by
  unfold promoteGeneration
  split
  next target _ _ _ =>
    split
    next => exact bound
    next => exact bound.set fun same => BoundIn.promoted (same ▸ bound) target
  next => exact bound

end Operations

/-! ## Runs -/

inductive CodeServerCall where
  | publish (module : String) (artifact : VmModuleArtifact)
  | bindProcessToActive (entry : ProcessEntry) (pid : UInt64) (module : String)
  | switchProcessToActive (entry : ProcessEntry) (pid : UInt64) (module : String)
  | releaseProcess (binding : VmCodeBinding)
  | releaseProcessBindings (pid : UInt64)
  | purgeRetiredGenerations (module : String)
  | unloadActiveGeneration (module : String)
  | promoteGeneration (module : String) (generation : UInt64)
      (expectedArtifact : VmModuleArtifact)

inductive CodeServerAnswer where
  | published (event : VmCodeServerEvent)
  | bound (result : Except String VmCodeBinding)
  | switched (result : Except String (VmCodeBinding × Option VmCodeServerEvent))
  | released (result : Except String (Option VmCodeServerEvent))
  | events (result : Except String (List VmCodeServerEvent))
  | changed (result : Except String VmCodeServerEvent)

def codeServerStep (server : VmCodeServer) : CodeServerCall → VmCodeServer × CodeServerAnswer
  | .publish module artifact => (server.publish module artifact).map id .published
  | .bindProcessToActive entry pid module =>
    (server.bindProcessToActive entry pid module).map id .bound
  | .switchProcessToActive entry pid module =>
    (server.switchProcessToActive entry pid module).map id .switched
  | .releaseProcess binding => (server.releaseProcess binding).map id .released
  | .releaseProcessBindings pid => (server.releaseProcessBindings pid).map id .events
  | .purgeRetiredGenerations module => (server.purgeRetiredGenerations module).map id .events
  | .unloadActiveGeneration module => (server.unloadActiveGeneration module).map id .changed
  | .promoteGeneration module generation artifact =>
    (server.promoteGeneration module generation artifact).map id .changed

/-- The binding that a call hands out. -/
def granted : CodeServerAnswer → Option VmCodeBinding
  | .bound (.ok binding) => some binding
  | .switched (.ok (binding, _)) => some binding
  | _ => none

/-- The call may end the binding: it releases it, it releases everything that its process
holds, or it moves its process to the active generation of its module. -/
def ends (binding : VmCodeBinding) : CodeServerCall → CodeServerAnswer → Bool
  | .releaseProcess released, _ => released = binding
  | .releaseProcessBindings pid, _ => binding.pid = pid
  | .switchProcessToActive _ pid module, .switched (.ok _) =>
    binding.pid = pid && binding.module = module
  | _, _ => false

/-- The bindings that have been handed out and not ended. -/
def held (history : List (CodeServerCall × CodeServerAnswer)) : List VmCodeBinding :=
  history.foldl
    (fun bindings turn =>
      bindings.filter (fun binding => !ends binding turn.1 turn.2) ++ (granted turn.2).toList)
    []

theorem held_append (history : List (CodeServerCall × CodeServerAnswer)) (call : CodeServerCall)
    (answer : CodeServerAnswer) : held (history ++ [(call, answer)]) =
      (held history).filter (fun binding => !ends binding call answer) ++
        (granted answer).toList := by
  rw [held, foldl_append]
  rfl

theorem consistent_step {server : VmCodeServer} (consistent : Consistent server)
    (call : CodeServerCall) : Consistent (codeServerStep server call).1 := by
  cases call with
  | publish module artifact => exact consistent_publish consistent module artifact
  | bindProcessToActive entry pid module => exact consistent_bind consistent entry pid module
  | switchProcessToActive entry pid module => exact consistent_switch consistent entry pid module
  | releaseProcess binding => exact consistent_release consistent binding
  | releaseProcessBindings pid => exact consistent_releaseBindings consistent pid
  | purgeRetiredGenerations module => exact consistent_purge consistent module
  | unloadActiveGeneration module => exact consistent_unload consistent module
  | promoteGeneration module generation artifact =>
    exact consistent_promote consistent module generation artifact

/-- A binding stays in effect until a call ends it. -/
theorem bound_step {server : VmCodeServer} (consistent : Consistent server)
    {binding : VmCodeBinding} (bound : Bound server binding) {call : CodeServerCall}
    (kept : ends binding call (codeServerStep server call).2 = false) :
    Bound (codeServerStep server call).1 binding := by
  cases call with
  | publish module artifact => exact bound_publish bound module artifact
  | bindProcessToActive entry pid module => exact bound_bind bound entry pid module
  | switchProcessToActive entry pid module =>
    refine bound_switch bound ?_
    cases answer : (server.switchProcessToActive entry pid module).2 with
    | error error => exact .inr ⟨error, rfl⟩
    | ok result =>
      left
      simpa [codeServerStep, Prod.map, answer, ends] using kept
  | releaseProcess released =>
    refine bound_release bound ?_
    simpa [codeServerStep, ends] using kept
  | releaseProcessBindings pid =>
    refine bound_releaseBindings bound ?_
    simpa [codeServerStep, ends] using kept
  | purgeRetiredGenerations module => exact bound_purge consistent bound module
  | unloadActiveGeneration module => exact bound_unload bound module
  | promoteGeneration module generation artifact =>
    exact bound_promote bound module generation artifact

theorem bound_granted {server : VmCodeServer} {call : CodeServerCall} {binding : VmCodeBinding}
    (grant : granted (codeServerStep server call).2 = some binding) :
    Bound (codeServerStep server call).1 binding := by
  cases call with
  | bindProcessToActive entry pid module =>
    cases answer : (server.bindProcessToActive entry pid module).2 with
    | error error => simp [codeServerStep, Prod.map, answer, granted] at grant
    | ok result =>
      simp only [codeServerStep, Prod.map, answer, granted, Option.some_inj] at grant
      exact bound_bind_self (grant ▸ answer)
  | switchProcessToActive entry pid module =>
    cases answer : (server.switchProcessToActive entry pid module).2 with
    | error error => simp [codeServerStep, Prod.map, answer, granted] at grant
    | ok result =>
      obtain ⟨taken, event⟩ := result
      simp only [codeServerStep, Prod.map, answer, granted, Option.some_inj] at grant
      exact bound_switch_self (grant ▸ answer)
  | publish | releaseProcess | releaseProcessBindings | purgeRetiredGenerations
  | unloadActiveGeneration | promoteGeneration => cases grant

/-- A purge removes no generation to which a process is bound. -/
theorem mem_purge {server : VmCodeServer} (consistent : Consistent server) (purged module : String)
    {generation : VmModuleGeneration} (mem : generation ∈ server.generations module) {pid : UInt64}
    (bound : pid ∈ generation.activeProcesses) :
    generation ∈ (server.purgeRetiredGenerations purged).1.generations module := by
  unfold purgeRetiredGenerations
  cases found : server.modules[purged]? with
  | none => exact mem
  | some generations =>
    dsimp only
    rw [generations_foldl_recordEvent, generations_setGenerations]
    split
    next same =>
      have settled := (consistent module).settled generation mem
      rw [← same, VmCodeServer.generations, found] at mem
      exact mem_filter.mpr ⟨mem, by simpa using settled.not_retired bound⟩
    next => exact mem

theorem consistent_new : Consistent .new := by
  intro module
  have none : VmCodeServer.new.generations module = [] := by
    simp [VmCodeServer.generations, VmCodeServer.new]
  rw [none]
  exact ⟨by simp, by simp, by simp⟩

/-- After any run: one active generation a module at most, retiring means not active and still
bound, a retired generation is free, what was handed out and not ended is in effect, and no
purge takes what is in use. -/
theorem code_server_consistent (calls : List CodeServerCall) :
    let run := replay codeServerStep .new calls
    (∀ module, (run.1.generations module).countP VmModuleGeneration.isActive ≤ 1) ∧
      (∀ module, ∀ generation ∈ run.1.generations module,
        (generation.state = .retiring ↔
          generation.state ≠ .active ∧ ∃ pid, pid ∈ generation.activeProcesses) ∧
        (generation.state = .retired → ∀ pid, pid ∉ generation.activeProcesses)) ∧
      (∀ binding ∈ held run.2, ∃ generation ∈ run.1.generations binding.module,
        generation.generation = binding.generation ∧ binding.pid ∈ generation.activeProcesses) ∧
      ∀ purged module, ∀ generation ∈ run.1.generations module, ∀ pid ∈ generation.activeProcesses,
        generation ∈ (run.1.purgeRetiredGenerations purged).1.generations module := by
  intro run
  have invariant : Consistent run.1 ∧ ∀ binding ∈ held run.2, Bound run.1 binding := by
    refine replay_invariant codeServerStep
      (fun server history => Consistent server ∧ ∀ binding ∈ held history, Bound server binding)
      ?_ .new [] calls ⟨consistent_new, fun binding mem => by cases mem⟩
    intro server history call ⟨consistent, bound⟩
    refine ⟨consistent_step consistent call, fun binding mem => ?_⟩
    rw [held_append, mem_append] at mem
    rcases mem with old | new
    · obtain ⟨wasHeld, kept⟩ := mem_filter.mp old
      exact bound_step consistent (bound binding wasHeld) (by simpa using kept)
    · exact bound_granted (Option.mem_toList.mp new)
  obtain ⟨consistent, bound⟩ := invariant
  refine ⟨fun module => (consistent module).single, ?_, bound, ?_⟩
  · intro module generation mem
    have settled := (consistent module).settled generation mem
    exact ⟨settled.retiring_iff, fun retired pid isBound => settled.not_retired isBound retired⟩
  · intro purged module generation mem pid isBound
    exact mem_purge consistent purged module mem isBound

end Terlan.CodeServer
