/-
  Work-stealing policy of one execution shard: what each scheduler does next, from a snapshot
  of the queues of all of them.

  * `decide_executable_iff`: a decision can be carried out exactly when the totals it reads
    fit into a word.
  * `backoff_iff`: a scheduler with local work is told to back off exactly when an earlier
    steal of its failed; between its services no class with work is passed over six times.

  The vectors of the policy have one entry for each scheduler, so they are functions on
  `Fin width`, and `serviceCycle` is walked by `Rotation.serve`.
-/
import Mathlib.Data.Prod.Lex
import Terlan.Lib.Order
import Terlan.Lib.Rotation
import Terlan.Scheduler

namespace Terlan.WorkStealing

open Terlan.Lib List
open Terlan.Scheduler (VmSchedulerClass)

/-! ## Data -/

/-- Slots of `serviceCycle`. -/
local instance slots_ne_zero : NeZero 6 := ⟨by decide⟩

def serviceCycle : Fin 6 → VmSchedulerClass
  | 0 => .priority
  | 1 => .priority
  | 2 => .normal
  | 3 => .priority
  | 4 => .normal
  | 5 => .background

def classIndex : VmSchedulerClass → Nat
  | .priority => 0
  | .normal => 1
  | .background => 2

def classes : List VmSchedulerClass := [.priority, .normal, .background]

/-- Bounds of the policy, none of them zero. -/
structure VmWorkStealingConfig where
  localServiceBudget : UInt32
  stealBatchSize : UInt64
  localityThreshold : UInt64
  minimumBackoffPolls : UInt32
  maximumBackoffPolls : UInt32
  starvationBounds : VmSchedulerClass → UInt64
  budget_ne_zero : localServiceBudget ≠ 0
  batch_ne_zero : stealBatchSize ≠ 0
  minimum_ne_zero : minimumBackoffPolls ≠ 0
  minimum_le_maximum : minimumBackoffPolls ≤ maximumBackoffPolls
  bounds_ne_zero : ∀ class_, starvationBounds class_ ≠ 0

def VmWorkStealingConfig.new (localServiceBudget : UInt32)
    (stealBatchSize localityThreshold : UInt64) (minimumBackoffPolls maximumBackoffPolls : UInt32)
    (starvationBounds : VmSchedulerClass → UInt64) : Except String VmWorkStealingConfig :=
  if budget : localServiceBudget = 0 then
    .error "error[vm.work_stealing.config]: local service budget is zero"
  else if batch : stealBatchSize = 0 then
    .error "error[vm.work_stealing.config]: steal batch size is zero"
  else if backoff : minimumBackoffPolls = 0 ∨ maximumBackoffPolls < minimumBackoffPolls then
    .error "error[vm.work_stealing.config]: invalid failed-steal backoff"
  else if bounds : ∃ class_ ∈ classes, starvationBounds class_ = 0 then
    .error "error[vm.work_stealing.config]: starvation bound is zero"
  else
    .ok
      { localServiceBudget, stealBatchSize, localityThreshold, minimumBackoffPolls
        maximumBackoffPolls, starvationBounds
        budget_ne_zero := budget
        batch_ne_zero := batch
        minimum_ne_zero := fun zero => backoff (.inl zero)
        minimum_le_maximum := UInt32.not_lt.mp fun less => backoff (.inr less)
        bounds_ne_zero := fun class_ zero =>
          bounds ⟨class_, by cases class_ <;> decide, zero⟩ }

/-- `Default::default`. -/
def VmWorkStealingConfig.default : VmWorkStealingConfig where
  localServiceBudget := 8
  stealBatchSize := 4
  localityThreshold := 1
  minimumBackoffPolls := 1
  maximumBackoffPolls := 64
  starvationBounds
    | .priority => 6
    | .normal => 12
    | .background => 24
  budget_ne_zero := by decide
  batch_ne_zero := by decide
  minimum_ne_zero := by decide
  minimum_le_maximum := by decide
  bounds_ne_zero := fun class_ => by cases class_ <;> decide

/-- Queues of one scheduler at one moment. -/
structure VmSchedulerWorkSnapshot where
  scheduler : Nat
  runnable : VmSchedulerClass → UInt64
  oldestWaitTicks : VmSchedulerClass → UInt64

namespace VmSchedulerWorkSnapshot

/-- `self.runnable.iter().copied().sum()`. -/
def runnableTotal (self : VmSchedulerWorkSnapshot) : Except (Fault String) UInt64 :=
  match (checkedAdd (self.runnable .priority) (self.runnable .normal)).bind
      (checkedAdd · (self.runnable .background)) with
  | some total => .ok total
  | none => .error (.panicked "attempt to add with overflow")

def runnableIn (self : VmSchedulerWorkSnapshot) (class_ : VmSchedulerClass) : UInt64 :=
  self.runnable class_

end VmSchedulerWorkSnapshot

structure VmStealPlan where
  thief : Nat
  victim : Nat
  class_ : VmSchedulerClass
  maximumActors : UInt64

inductive VmWorkDirective where
  | serveLocal (class_ : VmSchedulerClass)
  | steal (plan : VmStealPlan)
  | backoff (polls : UInt32)
  | sleep

/-- The most bytes that one vector may have. -/
def isizeMax : Nat := 9223372036854775807

/-- State of the policy. Its vectors of words were allocated. -/
structure VmWorkStealingPolicy (width : Nat) where
  config : VmWorkStealingConfig
  victimCursor : Fin width → Nat
  serviceCursor : Fin width → Fin 6
  localServices : Fin width → UInt32
  failedSteals : Fin width → UInt32
  backoffRemaining : Fin width → UInt32
  allocated : 8 * width ≤ isizeMax

/-- A candidate for a steal with what it is chosen by. -/
structure Score (width : Nat) where
  index : Fin width
  starved : Bool
  urgency : Nat
  load : Nat
  nearness : Nat

/-- Comparison of the four ranks, the first that differs decides. -/
def Score.rank {width : Nat} (score : Score width) : Bool ×ₗ Nat ×ₗ Nat ×ₗ Nat :=
  toLex (score.starved, toLex (score.urgency, toLex (score.load, score.nearness)))

/-- `highest_weighted_nonempty`. -/
def highestWeightedNonempty (snapshot : VmSchedulerWorkSnapshot) :
    Except (Fault String) VmSchedulerClass :=
  match classes.find? fun class_ => snapshot.runnableIn class_ > 0 with
  | some class_ => .ok class_
  | none => .error (.panicked "caller selected a nonempty scheduler snapshot")

namespace VmWorkStealingPolicy

variable {width : Nat}

def initial (config : VmWorkStealingConfig) (fits : 8 * width ≤ isizeMax) :
    VmWorkStealingPolicy width where
  config
  victimCursor := fun _ => 0
  serviceCursor := fun _ => 0
  localServices := fun _ => 0
  failedSteals := fun _ => 0
  backoffRemaining := fun _ => 0
  allocated := fits

def new (width : Nat) (config : VmWorkStealingConfig) :
    Except (Fault String) (VmWorkStealingPolicy width) :=
  if width = 0 then .error (.returned "error[vm.work_stealing.width]: scheduler width is zero")
  else if fits : 8 * width ≤ isizeMax then .ok (initial config fits)
  else .error (.panicked "capacity overflow")

def schedulerIndex (width scheduler : Nat) : Except (Fault String) (Fin width) :=
  if inside : scheduler < width then .ok ⟨scheduler, inside⟩
  else
    .error (.returned
      s!"error[vm.work_stealing.scheduler]: scheduler {scheduler} is outside width {width}")

/-- The first snapshot that is not in the place of its scheduler. -/
def misplaced (snapshots : List VmSchedulerWorkSnapshot) : Option (VmSchedulerWorkSnapshot × Nat) :=
  snapshots.zipIdx.find? fun entry => entry.1.scheduler ≠ entry.2

/-- The thief, and the snapshots by scheduler. -/
def validateSnapshots (width thief : Nat) (snapshots : List VmSchedulerWorkSnapshot) :
    Except (Fault String) (Fin width × (Fin width → VmSchedulerWorkSnapshot)) := do
  let thiefIndex ← schedulerIndex width thief
  if complete : snapshots.length = width then
    match misplaced snapshots with
    | some (snapshot, index) =>
      throw (.returned
        s!"error[vm.work_stealing.snapshot]: scheduler {snapshot.scheduler} occupies slot {index}")
    | none => return (thiefIndex, fun index => snapshots.get (index.cast complete.symm))
  else
    throw (.returned
      s!"error[vm.work_stealing.snapshot]: expected {width} schedulers, found {snapshots.length}")

variable (self : VmWorkStealingPolicy width)

/-- `oldest_wait_ticks.saturating_mul(1_024) / starvation_bound`. -/
def classUrgency (snapshot : VmSchedulerWorkSnapshot) (class_ : VmSchedulerClass) : Nat :=
  min ((snapshot.oldestWaitTicks class_).toNat * 1024) u64Max /
    (self.config.starvationBounds class_).toNat

/-- The most overdue class; of two that are equally overdue the lower. -/
def starvedClass (snapshot : VmSchedulerWorkSnapshot) : Option VmSchedulerClass :=
  maxByKey (fun class_ => toLex (self.classUrgency snapshot class_, classIndex class_))
    (classes.filter fun class_ =>
      snapshot.runnableIn class_ > 0 &&
        snapshot.oldestWaitTicks class_ ≥ self.config.starvationBounds class_)

/-- One candidate of the search, at a distance from the cursor. -/
def considerVictim (thief : Fin width) (snapshots : Fin width → VmSchedulerWorkSnapshot)
    (localLoad : UInt64) (start : Nat) (selected : Option (Score width)) (distance : Nat) :
    Except (Fault String) (Option (Score width)) := do
  failIf (start + distance > u64Max) (.panicked "attempt to add with overflow")
  let index : Fin width := ⟨(start + distance) % width, Nat.mod_lt _ thief.pos⟩
  let snapshot := snapshots index
  if index = thief then return selected
  else
    let total ← snapshot.runnableTotal
    if total = 0 then return selected
    else
      let starved := self.starvedClass snapshot
      let overloaded := total > saturatingAdd localLoad self.config.localityThreshold
      if localLoad > 0 ∧ starved = none ∧ ¬ overloaded then return selected
      else
        let score : Score width :=
          { index
            starved := starved.isSome
            urgency := (starved.map (self.classUrgency snapshot)).getD 0
            load := total.toNat
            nearness := u64Max - distance }
        match selected with
        | none => return some score
        | some current => return some (if score.rank > current.rank then score else current)

/-- `self.starved_class(victim).unwrap_or_else(|| highest_weighted_nonempty(victim))`. -/
def victimClass (victim : VmSchedulerWorkSnapshot) : Except (Fault String) VmSchedulerClass :=
  match self.starvedClass victim with
  | some class_ => .ok class_
  | none => highestWeightedNonempty victim

/-- A victim by starvation, load and rotation. -/
def selectSteal (thief : Fin width) (snapshots : Fin width → VmSchedulerWorkSnapshot) :
    Method (Fault String) (VmWorkStealingPolicy width) (Option VmStealPlan) := do
  let self ← get
  let localLoad ← (snapshots thief).runnableTotal
  let start := self.victimCursor thief % width
  let selected ← ((List.range width).foldlM
    (self.considerVictim thief snapshots localLoad start) none :
      Except (Fault String) (Option (Score width)))
  match selected with
  | none => return none
  | some score =>
    modify fun self =>
      { self with
        victimCursor :=
          Function.update self.victimCursor thief ((score.index.val + 1) % width) }
    let victim := snapshots score.index
    let class_ ← self.victimClass victim
    return some
      { thief := (snapshots thief).scheduler
        victim := victim.scheduler
        class_
        maximumActors := max (min (victim.runnableIn class_) self.config.stealBatchSize) 1 }

/-- The next class of the cycle that has local work. -/
def nextServiceClass (thief : Fin width) (snapshot : VmSchedulerWorkSnapshot) :
    Method (Fault String) (VmWorkStealingPolicy width) VmSchedulerClass := do
  let self ← get
  let served := Rotation.serve serviceCycle (fun class_ => snapshot.runnableIn class_ > 0) 6
    (self.serviceCursor thief)
  modify fun self =>
    { self with serviceCursor := Function.update self.serviceCursor thief served.1 }
  match served.2 with
  | some class_ => return class_
  | none => highestWeightedNonempty snapshot

def setLocalServices (thief : Fin width) (services : UInt32) : VmWorkStealingPolicy width :=
  { self with localServices := Function.update self.localServices thief services }

/-- Whether another scheduler has a class that waited too long. -/
def remoteStarved (thief : Fin width) (snapshots : Fin width → VmSchedulerWorkSnapshot) : Bool :=
  (List.finRange width).any fun index =>
    index ≠ thief && (self.starvedClass (snapshots index)).isSome

/-- `decide` after the snapshots were checked. -/
def decideAmong (thief : Fin width) (snapshots : Fin width → VmSchedulerWorkSnapshot) :
    Method (Fault String) (VmWorkStealingPolicy width) VmWorkDirective := do
  let self ← get
  if self.backoffRemaining thief > 0 then
    modify fun self =>
      { self with
        backoffRemaining :=
          Function.update self.backoffRemaining thief (self.backoffRemaining thief - 1) }
    return .backoff (self.backoffRemaining thief - 1)
  else
    let total ← (snapshots thief).runnableTotal
    if total > 0 ∧ self.localServices thief < self.config.localServiceBudget ∧
        self.remoteStarved thief snapshots = false then
      modify fun self => self.setLocalServices thief (self.localServices thief + 1)
      return .serveLocal (← nextServiceClass thief (snapshots thief))
    else
      match ← selectSteal thief snapshots with
      | some plan =>
        modify fun self => self.setLocalServices thief 0
        return .steal plan
      | none =>
        if total > 0 then
          modify fun self => self.setLocalServices thief 1
          return .serveLocal (← nextServiceClass thief (snapshots thief))
        else return .sleep

def decide (thief : Nat) (snapshots : List VmSchedulerWorkSnapshot) :
    Method (Fault String) (VmWorkStealingPolicy width) VmWorkDirective := do
  let (thiefIndex, snapshots) ← validateSnapshots width thief snapshots
  decideAmong thiefIndex snapshots

/-- The polls to wait after a number of steals that failed one after another. -/
def backoffPolls (failedSteals : UInt32) : UInt32 :=
  let shift := min (failedSteals.toNat - 1) 31
  UInt32.ofNat (min (min (self.config.minimumBackoffPolls.toNat * 2 ^ shift) (2 ^ 32 - 1))
    self.config.maximumBackoffPolls.toNat)

def recordStealResult (thief : Nat) (transferred : UInt64) :
    Method (Fault String) (VmWorkStealingPolicy width) Unit := do
  let index ← schedulerIndex width thief
  let self ← get
  failIf (transferred > self.config.stealBatchSize)
    (Fault.returned (s!"error[vm.work_stealing.batch]: transferred {transferred}, " ++
      s!"maximum {self.config.stealBatchSize}"))
  if transferred > 0 then
    modify fun self =>
      { self with
        failedSteals := Function.update self.failedSteals index 0
        backoffRemaining := Function.update self.backoffRemaining index 0 }
  else
    let failed := UInt32.ofNat (min ((self.failedSteals index).toNat + 1) (2 ^ 32 - 1))
    modify fun self =>
      { self with
        failedSteals := Function.update self.failedSteals index failed
        backoffRemaining :=
          Function.update self.backoffRemaining index (self.backoffPolls failed) }

end VmWorkStealingPolicy

/-! ## Totals -/

namespace VmSchedulerWorkSnapshot

/-- All runnable entries, as a number. -/
def load (self : VmSchedulerWorkSnapshot) : Nat :=
  (self.runnable .priority).toNat + (self.runnable .normal).toNat + (self.runnable .background).toNat

/-- The total of a snapshot fits into a word. -/
def Fits (self : VmSchedulerWorkSnapshot) : Prop := self.load ≤ u64Max

instance (self : VmSchedulerWorkSnapshot) : Decidable self.Fits :=
  inferInstanceAs (Decidable (self.load ≤ u64Max))

variable {self : VmSchedulerWorkSnapshot}

theorem runnableTotal_ok_iff {total : UInt64} :
    self.runnableTotal = .ok total ↔ total.toNat = self.load := by
  have sum : ((checkedAdd (self.runnable .priority) (self.runnable .normal)).bind
      (checkedAdd · (self.runnable .background))) = some total ↔ total.toNat = self.load := by
    rw [Option.bind_eq_some_iff]
    constructor
    · rintro ⟨partly, first, second⟩
      rw [checkedAdd_eq_some_iff.mp second, checkedAdd_eq_some_iff.mp first]
      rfl
    · intro same
      have bound := total.toNat_lt
      unfold load at same
      have fits : (self.runnable .priority).toNat + (self.runnable .normal).toNat ≤ u64Max := by
        unfold u64Max
        omega
      refine ⟨self.runnable .priority + self.runnable .normal, by rw [checkedAdd, if_pos fits], ?_⟩
      rw [checkedAdd_eq_some_iff, UInt64.toNat_add, Nat.mod_eq_of_lt (by unfold u64Max at fits; omega)]
      exact same
  unfold runnableTotal
  rw [← sum]
  cases (checkedAdd (self.runnable .priority) (self.runnable .normal)).bind
      (checkedAdd · (self.runnable .background)) with
  | none | some => simp

theorem exists_runnableTotal_iff : (∃ total, self.runnableTotal = .ok total) ↔ self.Fits := by
  simp only [runnableTotal_ok_iff]
  constructor
  · rintro ⟨total, same⟩
    have := total.toNat_lt
    unfold Fits u64Max
    omega
  · intro fits
    refine ⟨UInt64.ofNat self.load, UInt64.toNat_ofNat_of_lt ?_⟩
    unfold Fits u64Max at fits
    have : UInt64.size = 2 ^ 64 := rfl
    omega

/-- A total that does not fit ends the decision. -/
theorem runnableTotal_of_not_fits (h : ¬ self.Fits) : ∃ e, self.runnableTotal = .error e := by
  cases result : self.runnableTotal with
  | error e => exact ⟨e, rfl⟩
  | ok total => exact absurd (exists_runnableTotal_iff.mp ⟨total, result⟩) h

theorem load_pos_iff : 0 < self.load ↔ ∃ class_, 0 < self.runnableIn class_ := by
  unfold load runnableIn
  constructor
  · intro pos
    by_contra none_
    have zero : ∀ class_, (self.runnable class_).toNat = 0 := fun class_ =>
      Nat.eq_zero_of_not_pos fun pos => none_ ⟨class_, UInt64.lt_iff_toNat_lt.mpr pos⟩
    rw [zero, zero, zero] at pos
    omega
  · rintro ⟨class_, pos⟩
    have pos := UInt64.lt_iff_toNat_lt.mp pos
    rw [UInt64.toNat_zero] at pos
    cases class_ <;> omega

end VmSchedulerWorkSnapshot

theorem mem_classes (class_ : VmSchedulerClass) : class_ ∈ classes := by
  cases class_ <;> decide

theorem exists_slot (class_ : VmSchedulerClass) : ∃ slot, serviceCycle slot = class_ := by
  cases class_ with
  | priority => exact ⟨0, rfl⟩
  | normal => exact ⟨2, rfl⟩
  | background => exact ⟨5, rfl⟩

/-- Some class of a snapshot with work has work. -/
theorem highestWeightedNonempty_of_load {snapshot : VmSchedulerWorkSnapshot}
    (work : 0 < snapshot.load) :
    ∃ class_, highestWeightedNonempty snapshot = .ok class_ ∧ 0 < snapshot.runnableIn class_ := by
  obtain ⟨class_, runnable⟩ := VmSchedulerWorkSnapshot.load_pos_iff.mp work
  unfold highestWeightedNonempty
  cases found : classes.find? fun class_ => snapshot.runnableIn class_ > 0 with
  | none =>
    exact absurd (decide_eq_true runnable)
      (find?_eq_none.mp found class_ (mem_classes class_))
  | some first =>
    have runs := find?_some found
    exact ⟨first, rfl, of_decide_eq_true runs⟩

/-! ## The search for a victim -/

namespace VmWorkStealingPolicy

variable {width : Nat} {self : VmWorkStealingPolicy width}

theorem runnable_of_starvedClass {snapshot : VmSchedulerWorkSnapshot} {class_ : VmSchedulerClass}
    (starved : self.starvedClass snapshot = some class_) : 0 < snapshot.runnableIn class_ := by
  have mem := (isTop_of_maxByKey starved).1
  rw [mem_filter, Bool.and_eq_true, decide_eq_true_eq] at mem
  exact mem.2.1

section search

variable {thief : Fin width} {snapshots : Fin width → VmSchedulerWorkSnapshot}
  {localLoad : UInt64} {start : Nat}

/-- The scheduler at a distance from the cursor. -/
def candidate (thief : Fin width) (start distance : Nat) : Fin width :=
  ⟨(start + distance) % width, Nat.mod_lt _ thief.pos⟩

/-- What a search may have selected. -/
def Stealable (thief : Fin width) (snapshots : Fin width → VmSchedulerWorkSnapshot)
    (selected : Option (Score width)) : Prop :=
  ∀ score ∈ selected, score.index ≠ thief ∧ 0 < (snapshots score.index).load

theorem start_in_word (policy : VmWorkStealingPolicy width) {distance : Nat}
    (inStart : start < width) (inWidth : distance < width) : failIf (start + distance > u64Max)
      (Fault.panicked (ε := String) "attempt to add with overflow") = .ok () := by
  have := policy.allocated
  unfold isizeMax at this
  refine failIf_ok_iff.mpr (Nat.not_lt.mpr ?_)
  unfold u64Max
  omega

theorem considerVictim_own {selected : Option (Score width)} {distance : Nat}
    (inStart : start < width) (inWidth : distance < width)
    (own : candidate thief start distance = thief) :
    self.considerVictim thief snapshots localLoad start selected distance = .ok selected := by
  unfold considerVictim
  rw [start_in_word self inStart inWidth]
  exact if_pos own

theorem considerVictim_error {selected : Option (Score width)} {distance : Nat}
    (inStart : start < width) (inWidth : distance < width)
    (other : candidate thief start distance ≠ thief)
    (big : ¬ (snapshots (candidate thief start distance)).Fits) :
    ∃ e, self.considerVictim thief snapshots localLoad start selected distance = .error e := by
  obtain ⟨e, read⟩ := VmSchedulerWorkSnapshot.runnableTotal_of_not_fits big
  refine ⟨e, ?_⟩
  unfold considerVictim
  rw [start_in_word self inStart inWidth]
  refine (if_neg other).trans ?_
  change ((snapshots (candidate thief start distance)).runnableTotal >>= _) = _
  rw [read]
  rfl

/-- A candidate whose total can be read. Without local work none with work is passed over. -/
theorem considerVictim_ok {selected : Option (Score width)} {distance : Nat}
    (inStart : start < width) (inWidth : distance < width)
    (other : candidate thief start distance ≠ thief)
    (fits : (snapshots (candidate thief start distance)).Fits) :
    ∃ next, self.considerVictim thief snapshots localLoad start selected distance = .ok next ∧
      (next = selected ∨ ∃ score, next = some score ∧ score.index = candidate thief start distance ∧
          0 < (snapshots (candidate thief start distance)).load) ∧ (selected.isSome → next.isSome) ∧
      (localLoad = 0 → 0 < (snapshots (candidate thief start distance)).load → next.isSome) := by
  obtain ⟨total, read⟩ := VmSchedulerWorkSnapshot.exists_runnableTotal_iff.mpr fits
  have same := VmSchedulerWorkSnapshot.runnableTotal_ok_iff.mp read
  unfold considerVictim
  rw [start_in_word self inStart inWidth]
  have skip : ∀ {rest : Except (Fault String) (Option (Score width))},
      (Except.ok (ε := Fault String) () >>= fun _ =>
        if candidate thief start distance = thief then .ok selected else rest) = rest :=
    fun {rest} => if_neg other
  change ∃ next, (Except.ok (ε := Fault String) () >>= fun _ =>
    if candidate thief start distance = thief then .ok selected
    else (snapshots (candidate thief start distance)).runnableTotal >>= _) = _ ∧ _
  rw [skip, read]
  change ∃ next, (if total = 0 then _ else _) = _ ∧ _
  by_cases empty : total = 0
  · rw [if_pos empty]
    refine ⟨selected, rfl, .inl rfl, id, fun _ work => ?_⟩
    rw [← same, empty] at work
    exact absurd work (Nat.lt_irrefl 0)
  · rw [if_neg empty]
    have work : 0 < (snapshots (candidate thief start distance)).load := by
      rw [← same]
      exact Nat.pos_of_ne_zero fun zero => empty (UInt64.toNat_inj.mp zero)
    change ∃ next, (if localLoad > 0 ∧ _ ∧ _ then _ else _) = _ ∧ _
    split_ifs with near
    · refine ⟨selected, rfl, .inl rfl, id, fun none_ => ?_⟩
      rw [none_] at near
      exact absurd near.1 (by decide)
    cases selected with
    | none => exact ⟨_, rfl, .inr ⟨_, rfl, rfl, work⟩, fun _ => rfl, fun _ _ => rfl⟩
    | some current =>
      refine ⟨_, rfl, ?_, fun _ => rfl, fun _ _ => rfl⟩
      split_ifs
      · exact .inr ⟨_, rfl, rfl, work⟩
      · exact .inl rfl

theorem exists_candidate (inStart : start < width) (index : Fin width) :
    ∃ distance ∈ List.range width, candidate thief start distance = index := by
  have := index.isLt
  by_cases behind : start ≤ index.val
  · refine ⟨index.val - start, mem_range.mpr (by omega), Fin.ext ?_⟩
    change (start + (index.val - start)) % width = index.val
    rw [Nat.add_sub_cancel' behind, Nat.mod_eq_of_lt index.isLt]
  · refine ⟨width - start + index.val, mem_range.mpr (by omega), Fin.ext ?_⟩
    change (start + (width - start + index.val)) % width = index.val
    have around : start + (width - start + index.val) = index.val + width := by omega
    rw [around, Nat.add_mod_right, Nat.mod_eq_of_lt index.isLt]

/-- The search ends with a scheduler that has work, if its reads succeed. -/
theorem search_ok (inStart : start < width) {distances : List Nat}
    (inWidth : ∀ distance ∈ distances, distance < width)
    (fits : ∀ distance ∈ distances, candidate thief start distance ≠ thief →
      (snapshots (candidate thief start distance)).Fits)
    {selected : Option (Score width)} (good : Stealable thief snapshots selected) :
    ∃ next, distances.foldlM (self.considerVictim thief snapshots localLoad start) selected =
        .ok next ∧ Stealable thief snapshots next ∧ (selected.isSome → next.isSome) ∧
      (localLoad = 0 → ∀ distance ∈ distances, candidate thief start distance ≠ thief →
        0 < (snapshots (candidate thief start distance)).load → next.isSome) := by
  induction distances generalizing selected with
  | nil => exact ⟨selected, rfl, good, id, fun _ _ mem => absurd mem not_mem_nil⟩
  | cons distance distances ih =>
    have inHere := inWidth distance mem_cons_self
    have step : ∃ next,
        self.considerVictim thief snapshots localLoad start selected distance = .ok next ∧
        Stealable thief snapshots next ∧ (selected.isSome → next.isSome) ∧
        (localLoad = 0 → candidate thief start distance ≠ thief →
          0 < (snapshots (candidate thief start distance)).load → next.isSome) := by
      by_cases own : candidate thief start distance = thief
      · exact ⟨selected, considerVictim_own inStart inHere own, good, id,
          fun _ other => absurd own other⟩
      obtain ⟨next, run, fate, kept, found⟩ :=
        @considerVictim_ok _ self _ _ localLoad _ selected _
          inStart inHere own (fits distance mem_cons_self own)
      refine ⟨next, run, ?_, kept, fun idle _ work => found idle work⟩
      rcases fate with same | ⟨score, same, place, work⟩
      · rw [same]
        exact good
      intro other mem
      rw [same, Option.mem_some_iff] at mem
      rw [← mem, place]
      exact ⟨own, work⟩
    obtain ⟨next, run, goodNext, kept, found⟩ := step
    obtain ⟨last, rest, goodLast, keptLast, foundLast⟩ :=
      ih (fun d mem => inWidth d (mem_cons_of_mem _ mem))
        (fun d mem => fits d (mem_cons_of_mem _ mem)) goodNext
    refine ⟨last, ?_, goodLast, fun some_ => keptLast (kept some_), ?_⟩
    · rw [foldlM_cons, run]
      exact rest
    · intro idle d mem other work
      rcases mem_cons.mp mem with rfl | mem
      · exact keptLast (found idle other work)
      · exact foundLast idle d mem other work

/-- A total that does not fit ends the search. -/
theorem search_error (inStart : start < width) {distances : List Nat}
    (inWidth : ∀ distance ∈ distances, distance < width) {distance : Nat}
    (mem : distance ∈ distances) (other : candidate thief start distance ≠ thief)
    (big : ¬ (snapshots (candidate thief start distance)).Fits) (selected : Option (Score width)) :
    ∃ e, distances.foldlM (self.considerVictim thief snapshots localLoad start) selected =
      .error e := by
  induction distances generalizing selected with
  | nil => cases mem
  | cons first distances ih =>
    rw [foldlM_cons]
    cases run : self.considerVictim thief snapshots localLoad start selected first with
    | error e => exact ⟨e, rfl⟩
    | ok next =>
      rcases mem_cons.mp mem with rfl | mem
      · obtain ⟨e, fails⟩ := @considerVictim_error _ self _ _ localLoad _ selected _
          inStart (inWidth distance mem_cons_self) other big
        rw [fails] at run
        cases run
      · exact ih (fun d m => inWidth d (mem_cons_of_mem _ m)) mem next

end search

/-! ## One decision -/

section decision

variable {s : VmWorkStealingPolicy width} {thief : Fin width}
  {table : Fin width → VmSchedulerWorkSnapshot}

/-- A plan that its victim can serve. -/
structure Servable (thief : Fin width) (table : Fin width → VmSchedulerWorkSnapshot)
    (batch : UInt64) (plan : VmStealPlan) (victim : Fin width) : Prop where
  thief_eq : plan.thief = thief.val
  victim_eq : plan.victim = victim.val
  other : victim ≠ thief
  nonempty : 0 < (table victim).runnableIn plan.class_
  one_le : 1 ≤ plan.maximumActors
  le_batch : plan.maximumActors ≤ batch
  le_runnable : plan.maximumActors ≤ (table victim).runnableIn plan.class_

theorem batch_bounds {count batch : UInt64} (some_ : 0 < count) (size : batch ≠ 0) :
    1 ≤ max (min count batch) 1 ∧ max (min count batch) 1 ≤ batch ∧
      max (min count batch) 1 ≤ count := by
  have positive : 0 < batch.toNat := Nat.pos_of_ne_zero fun zero => size (UInt64.toNat_inj.mp zero)
  have one : (1 : UInt64).toNat = 1 := rfl
  rw [UInt64.lt_iff_toNat_lt, UInt64.toNat_zero] at some_
  have least : min count batch = if count ≤ batch then count else batch := rfl
  have most : max (min count batch) 1 = if min count batch ≤ 1 then 1 else min count batch := rfl
  rw [most, least]
  simp only [UInt64.le_iff_toNat_le]
  split_ifs <;> omega

/-- The class that a plan takes from its victim. -/
theorem victimClass_of_load (s : VmWorkStealingPolicy width) {snapshot : VmSchedulerWorkSnapshot}
    (work : 0 < snapshot.load) :
    ∃ class_, s.victimClass snapshot = .ok class_ ∧ 0 < snapshot.runnableIn class_ := by
  unfold victimClass
  cases starved : s.starvedClass snapshot with
  | none => exact highestWeightedNonempty_of_load work
  | some class_ => exact ⟨class_, rfl, runnable_of_starvedClass starved⟩

theorem selectSteal_ok (placed : ∀ index, (table index).scheduler = index.val)
    (fits : ∀ index, (table index).Fits) : (∃ plan victim cursor, (selectSteal thief table).call s =
        ({ s with victimCursor := cursor }, .ok (some plan)) ∧
        Servable thief table s.config.stealBatchSize plan victim) ∨
      ((selectSteal thief table).call s = (s, .ok none) ∧
        ((table thief).load = 0 → ∀ index, (table index).load = 0)) := by
  obtain ⟨localLoad, read⟩ := VmSchedulerWorkSnapshot.exists_runnableTotal_iff.mpr (fits thief)
  have inStart : s.victimCursor thief % width < width := Nat.mod_lt _ thief.pos
  obtain ⟨selected, run, good, -, found⟩ :=
    @search_ok _ s thief table localLoad _ inStart (List.range width)
      (fun _ mem => mem_range.mp mem) (fun _ _ _ => fits _) none nofun
  unfold selectSteal
  rw [call_get_bind, call_check_bind, read]
  dsimp only
  rw [call_check_bind, run]
  dsimp only
  cases selected with
  | none =>
    refine .inr ⟨rfl, fun idle index => ?_⟩
    by_contra work
    by_cases own : index = thief
    · exact work (own ▸ idle)
    obtain ⟨distance, mem, place⟩ := @exists_candidate _ thief _ inStart index
    have same := VmSchedulerWorkSnapshot.runnableTotal_ok_iff.mp read
    have zero : localLoad = 0 := UInt64.toNat_inj.mp (same.trans idle)
    have some_ := found zero distance mem (place ▸ own) (place ▸ Nat.pos_of_ne_zero work)
    cases some_
  | some score =>
    obtain ⟨other, work⟩ := good score rfl
    left
    obtain ⟨class_, chosen, runnable⟩ := victimClass_of_load s work
    obtain ⟨one_le, le_batch, le_runnable⟩ := batch_bounds runnable s.config.batch_ne_zero
    refine ⟨⟨thief.val, score.index.val, class_, _⟩, score.index,
      Function.update s.victimCursor thief ((score.index.val + 1) % width), ?_,
      ⟨rfl, rfl, other, runnable, one_le, le_batch, le_runnable⟩⟩
    dsimp only
    rw [call_modify_bind, call_check_bind, chosen, placed, placed]
    rfl

theorem selectSteal_error {index : Fin width} (other : index ≠ thief)
    (big : ¬ (table index).Fits) : ∃ e, (selectSteal thief table).call s = (s, .error e) := by
  have inStart : s.victimCursor thief % width < width := Nat.mod_lt _ thief.pos
  unfold selectSteal
  rw [call_get_bind, call_check_bind]
  cases read : (table thief).runnableTotal with
  | error e => exact ⟨e, rfl⟩
  | ok localLoad =>
    obtain ⟨distance, mem, place⟩ := @exists_candidate _ thief _ inStart index
    obtain ⟨e, run⟩ := @search_error _ s thief table localLoad _ inStart (List.range width)
      (fun _ mem => mem_range.mp mem) distance mem (place ▸ other) (place ▸ big) none
    refine ⟨e, ?_⟩
    dsimp only
    rw [call_check_bind, run]

/-- The work of the thief is served without a look at the other totals. -/
def Immediate (s : VmWorkStealingPolicy width) (thief : Fin width)
    (table : Fin width → VmSchedulerWorkSnapshot) : Prop :=
  0 < (table thief).load ∧ s.localServices thief < s.config.localServiceBudget ∧
    s.remoteStarved thief table = false

/-- The totals that a decision reads fit. -/
def TotalsFit (s : VmWorkStealingPolicy width) (thief : Fin width)
    (table : Fin width → VmSchedulerWorkSnapshot) : Prop :=
  (table thief).Fits ∧ (s.Immediate thief table ∨ ∀ index, (table index).Fits)

/-- Local work in the rotation of the classes. -/
def turn (s : VmWorkStealingPolicy width) (thief : Fin width)
    (snapshot : VmSchedulerWorkSnapshot) : Fin 6 × Option VmSchedulerClass :=
  Rotation.serve serviceCycle (fun class_ => snapshot.runnableIn class_ > 0) 6
    (s.serviceCursor thief)

/-- What a decision may do. -/
inductive Decision (s : VmWorkStealingPolicy width) (thief : Fin width)
    (table : Fin width → VmSchedulerWorkSnapshot) :
    VmWorkStealingPolicy width × Except (Fault String) VmWorkDirective → Prop where
  | backoff (waits : 0 < s.backoffRemaining thief) (remaining : Fin width → UInt32)
      (polls : UInt32) :
      Decision s thief table
        ({ s with backoffRemaining := remaining }, .ok (.backoff polls))
  | failed (ready : ¬ 0 < s.backoffRemaining thief) (big : ¬ s.TotalsFit thief table)
      (e : Fault String) : Decision s thief table (s, .error e)
  | serveLocal (ready : ¬ 0 < s.backoffRemaining thief) (fits : s.TotalsFit thief table)
      (services : Fin width → UInt32) {after : Fin 6} {served : VmSchedulerClass}
      (turn : s.turn thief (table thief) = (after, some served)) :
      Decision s thief table
        ({ s with
            localServices := services
            serviceCursor := Function.update s.serviceCursor thief after },
          .ok (.serveLocal served))
  | steal (ready : ¬ 0 < s.backoffRemaining thief) (fits : s.TotalsFit thief table)
      (services : Fin width → UInt32) (cursor : Fin width → Nat) {plan : VmStealPlan}
      {victim : Fin width} (servable : Servable thief table s.config.stealBatchSize plan victim) :
      Decision s thief table
        ({ s with localServices := services, victimCursor := cursor }, .ok (.steal plan))
  | sleep (ready : ¬ 0 < s.backoffRemaining thief) (fits : s.TotalsFit thief table)
      (idle : ∀ index, (table index).load = 0) : Decision s thief table (s, .ok .sleep)

theorem nextServiceClass_of_load (s : VmWorkStealingPolicy width) (work : 0 < (table thief).load) :
    ∃ after served, s.turn thief (table thief) = (after, some served) ∧
      (nextServiceClass thief (table thief)).call s =
        ({ s with serviceCursor := Function.update s.serviceCursor thief after }, .ok served) := by
  obtain ⟨class_, runnable⟩ := VmSchedulerWorkSnapshot.load_pos_iff.mp work
  obtain ⟨slot, rfl⟩ := exists_slot class_
  obtain ⟨after, served, turn, -⟩ :=
    @Rotation.serve_within 6 _ _ serviceCycle (fun class_ => (table thief).runnableIn class_ > 0)
      _ 6 6 (s.serviceCursor thief) (decide_eq_true runnable)
      (Rotation.within_cycle slot (s.serviceCursor thief)) (Nat.le_refl 6)
  refine ⟨after, served, turn, ?_⟩
  unfold nextServiceClass
  rw [call_get_bind, call_modify_bind, turn]
  rfl

theorem decideAmong_decision (placed : ∀ index, (table index).scheduler = index.val) :
    Decision s thief table ((decideAmong thief table).call s) := by
  unfold decideAmong
  rw [call_get_bind, call_ite]
  split_ifs with waits
  · exact .backoff waits _ _
  rw [call_check_bind]
  cases read : (table thief).runnableTotal with
  | error e =>
    refine .failed waits (fun fits => ?_) e
    obtain ⟨total, fine⟩ := VmSchedulerWorkSnapshot.exists_runnableTotal_iff.mpr fits.1
    rw [fine] at read
    cases read
  | ok total =>
    have same := VmSchedulerWorkSnapshot.runnableTotal_ok_iff.mp read
    have fits := VmSchedulerWorkSnapshot.exists_runnableTotal_iff.mp ⟨total, read⟩
    have work_iff : total > 0 ↔ 0 < (table thief).load := by
      rw [← same]
      exact UInt64.lt_iff_toNat_lt
    dsimp only
    rw [call_ite]
    by_cases now : total > 0 ∧ s.localServices thief < s.config.localServiceBudget ∧
        s.remoteStarved thief table = false
    · have quick : s.Immediate thief table := ⟨work_iff.mp now.1, now.2⟩
      obtain ⟨after, served, turn, run⟩ := nextServiceClass_of_load
        (s.setLocalServices thief (s.localServices thief + 1)) quick.1
      rw [if_pos now, call_modify_bind, call_bind, run]
      exact .serveLocal waits ⟨fits, .inl quick⟩ _ turn
    rw [if_neg now, call_bind]
    by_cases all : ∀ index, (table index).Fits
    · rcases @selectSteal_ok _ s thief _ placed all with
        ⟨plan, victim, cursor, run, servable⟩ | ⟨run, idle⟩
      · rw [run]
        exact .steal waits ⟨fits, .inr all⟩ _ cursor servable
      · rw [run]
        dsimp only
        rw [call_ite]
        split_ifs with work
        · obtain ⟨after, served, turn, run⟩ := nextServiceClass_of_load
            (s.setLocalServices thief 1) (work_iff.mp work)
          rw [call_modify_bind, call_bind, run]
          exact .serveLocal waits ⟨fits, .inr all⟩ _ turn
        · exact .sleep waits ⟨fits, .inr all⟩
            (idle (Nat.eq_zero_of_not_pos fun pos => work (work_iff.mpr pos)))
    · obtain ⟨index, big⟩ := not_forall.mp all
      have other : index ≠ thief := fun own => big (own ▸ fits)
      obtain ⟨e, run⟩ := selectSteal_error (s := s) other big
      rw [run]
      refine .failed waits (fun good => ?_) e
      rcases good.2 with quick | every
      · exact now ⟨work_iff.mpr quick.1, quick.2⟩
      · exact all every

/-! ## Decisions that can be carried out -/

/-- The directive can be carried out on the queues it was made for. -/
def Executable (thief : Fin width) (table : Fin width → VmSchedulerWorkSnapshot)
    (batch : UInt64) : VmWorkDirective → Prop
  | .serveLocal class_ => 0 < (table thief).runnableIn class_
  | .steal plan => ∃ victim, Servable thief table batch plan victim
  | .backoff _ => True
  | .sleep => ∀ index class_, (table index).runnableIn class_ = 0

theorem executable_of_decision {s' : VmWorkStealingPolicy width} {directive : VmWorkDirective}
    (h : Decision s thief table (s', .ok directive)) :
    Executable thief table s.config.stealBatchSize directive := by
  cases h with
  | backoff => trivial
  | serveLocal _ _ _ turn =>
    have busy := Rotation.busy_of_serve turn
    rw [decide_eq_true_eq] at busy
    exact busy
  | steal _ _ _ _ servable => exact ⟨_, servable⟩
  | sleep _ _ idle =>
    intro index class_
    by_contra some_
    have pos : 0 < (table index).load :=
      VmSchedulerWorkSnapshot.load_pos_iff.mpr ⟨class_, UInt64.pos_iff_ne_zero.mpr some_⟩
    exact absurd (idle index) (Nat.ne_of_gt pos)

theorem returns_iff_of_decision {outcome : VmWorkStealingPolicy width ×
      Except (Fault String) VmWorkDirective} (h : Decision s thief table outcome) :
    (∃ directive, outcome.2 = .ok directive) ↔
      0 < s.backoffRemaining thief ∨ s.TotalsFit thief table := by
  cases h with
  | backoff waits => exact iff_of_true ⟨_, rfl⟩ (.inl waits)
  | failed ready big => exact iff_of_false (by simp) (not_or.mpr ⟨ready, big⟩)
  | serveLocal _ fits | steal _ fits | sleep _ fits => exact iff_of_true ⟨_, rfl⟩ (.inr fits)

end decision

section lists

variable {s : VmWorkStealingPolicy width} {thief : Nat} {snapshots : List VmSchedulerWorkSnapshot}
  {index : Fin width} {table : Fin width → VmSchedulerWorkSnapshot}

theorem validateSnapshots_ok
    (valid : validateSnapshots width thief snapshots = .ok (index, table)) :
    index.val = thief ∧ ∀ slot, (table slot).scheduler = slot.val := by
  unfold validateSnapshots at valid
  obtain ⟨found, inside, rest⟩ := except_bind_ok_iff.mp valid
  have place : found.val = thief := by
    unfold schedulerIndex at inside
    split at inside
    · cases inside
      rfl
    · cases inside
  split at rest
  next complete =>
    split at rest
    next => cases rest
    next ordered =>
      cases rest
      refine ⟨place, fun slot => ?_⟩
      have inList : slot.val < snapshots.length := complete ▸ slot.isLt
      have mem : (snapshots[slot.val], slot.val) ∈ snapshots.zipIdx :=
        mem_zipIdx_iff_getElem?.mpr (getElem?_eq_getElem inList)
      have placed := find?_eq_none.mp ordered _ mem
      rw [decide_eq_true_eq, not_not] at placed
      exact placed
  next => cases rest

theorem decide_decision (valid : validateSnapshots width thief snapshots = .ok (index, table)) :
    Decision s index table ((decide thief snapshots).call s) := by
  unfold decide
  rw [call_check_bind, valid]
  exact decideAmong_decision (validateSnapshots_ok valid).2

/-- A decision on valid snapshots can be carried out exactly when the scheduler backs off or the
totals that are read fit into a word. -/
theorem decide_executable_iff
    (valid : validateSnapshots width thief snapshots = .ok (index, table)) :
    (∃ s' directive, (decide thief snapshots).call s = (s', .ok directive) ∧
        Executable index table s.config.stealBatchSize directive) ↔
      0 < s.backoffRemaining index ∨ s.TotalsFit index table := by
  have h := decide_decision (s := s) valid
  rw [← returns_iff_of_decision h]
  constructor
  · rintro ⟨s', directive, run, -⟩
    exact ⟨directive, by rw [run]⟩
  · rintro ⟨directive, run⟩
    rcases outcome : (decide thief snapshots).call s with ⟨s', reply⟩
    rw [outcome] at h run
    cases run
    exact ⟨s', directive, rfl, executable_of_decision h⟩

/-- One scheduler of two has more entries than fit into a word. -/
def overfull : List VmSchedulerWorkSnapshot :=
  [⟨0, fun class_ => if class_ = .priority then 18446744073709551615 else 1, fun _ => 0⟩,
    ⟨1, fun _ => 0, fun _ => 0⟩]

theorem decide_overflows : ∃ s, new 2 VmWorkStealingConfig.default = .ok s ∧
      (∃ found, validateSnapshots 2 0 overfull = .ok found) ∧
      ((decide 0 overfull).call s).2 = .error (.panicked "attempt to add with overflow") :=
  ⟨_, rfl, ⟨_, rfl⟩, rfl⟩

/-- An idle scheduler next to a busy one. -/
def idleAndBusy : List VmSchedulerWorkSnapshot :=
  [⟨0, fun _ => 0, fun _ => 0⟩, ⟨1, fun _ => 5, fun _ => 0⟩]

theorem decide_executable_of_idle :
    ∃ index table s' directive, validateSnapshots 2 0 idleAndBusy = .ok (index, table) ∧
      (decide 0 idleAndBusy).call (@initial 2 .default (by decide)) = (s', .ok directive) ∧
        Executable index table 4 directive := by
  obtain ⟨s', directive, run, executable⟩ :=
    (@decide_executable_iff 2 (initial .default (by decide)) 0 idleAndBusy 0 _ rfl).mpr
      (.inr ⟨by decide, .inr (by decide)⟩)
  exact ⟨0, _, s', directive, rfl, run, executable⟩

end lists

/-! ## Runs -/

inductive Request where
  | decide (thief : Nat) (snapshots : List VmSchedulerWorkSnapshot)
  | recordStealResult (thief : Nat) (transferred : UInt64)

inductive Reply where
  | decided (result : Except (Fault String) VmWorkDirective)
  | recorded (result : Except (Fault String) Unit)

def call (s : VmWorkStealingPolicy width) : Request → VmWorkStealingPolicy width × Reply
  | .decide thief snapshots =>
    (((decide thief snapshots).call s).1, .decided ((decide thief snapshots).call s).2)
  | .recordStealResult thief transferred =>
    (((recordStealResult thief transferred).call s).1,
      .recorded ((recordStealResult thief transferred).call s).2)

/-- The request asks for a scheduler with local work. -/
def HasLocalWork (width : Nat) (thief : Fin width) : Request → Prop
  | .decide scheduler snapshots =>
    ∃ table, validateSnapshots width scheduler snapshots = .ok (thief, table) ∧
      0 < (table thief).load
  | .recordStealResult _ _ => False

/-- Whoever has local work is not told to back off. -/
def NotWithheld (width : Nat) (event : Request × Reply) : Prop :=
  ∀ thief, HasLocalWork width thief event.1 →
    ∀ polls, event.2 ≠ .decided (.ok (.backoff polls))

/-- No scheduler is asked for while it has both local work and a failed steal to wait for. -/
def Rested (s : VmWorkStealingPolicy width) (request : Request) : Prop :=
  ∀ thief, HasLocalWork width thief request → s.backoffRemaining thief = 0

variable {table : Fin width → VmSchedulerWorkSnapshot} {thief : Fin width}

theorem backoff_iff_of_decision {s : VmWorkStealingPolicy width}
    {outcome : VmWorkStealingPolicy width × Except (Fault String) VmWorkDirective}
    (h : Decision s thief table outcome) :
    (∃ polls, outcome.2 = .ok (.backoff polls)) ↔ 0 < s.backoffRemaining thief := by
  cases h with
  | backoff waits => exact iff_of_true ⟨_, rfl⟩ waits
  | failed ready | serveLocal ready | steal ready | sleep ready =>
    exact iff_of_false (by simp) ready

variable (s : VmWorkStealingPolicy width)

theorem notWithheld_iff (request : Request) :
    NotWithheld width (request, (s.call request).2) ↔ s.Rested request := by
  cases request with
  | recordStealResult thief transferred => exact iff_of_true (fun _ h => h.elim) fun _ h => h.elim
  | decide scheduler snapshots =>
    refine forall_congr' fun thief => forall_congr' fun ⟨table, valid, _⟩ => ?_
    have h := backoff_iff_of_decision (decide_decision (s := s) valid)
    have pos : 0 < s.backoffRemaining thief ↔ s.backoffRemaining thief ≠ 0 :=
      UInt32.pos_iff_ne_zero
    constructor
    · intro never
      by_contra waits
      obtain ⟨polls, told⟩ := h.mpr (pos.mpr waits)
      exact never polls (congrArg Reply.decided told)
    · intro rested polls told
      exact pos.mp (h.mp ⟨polls, Reply.decided.inj told⟩) rested

/-! ### Local services -/

/-- A local service of a scheduler, with its queues. -/
def serviceOf (thief : Fin width) :
    Request × Reply → Option (VmSchedulerWorkSnapshot × VmSchedulerClass)
  | (.decide scheduler snapshots, .decided (.ok (.serveLocal class_))) =>
    match validateSnapshots width scheduler snapshots with
    | .ok (found, table) => if found = thief then some (table thief, class_) else none
    | .error _ => none
  | _ => none

def services (thief : Fin width) (events : List (Request × Reply)) :
    List (VmSchedulerWorkSnapshot × VmSchedulerClass) :=
  events.filterMap (serviceOf thief)

/-- A service as a turn of the rotation. -/
def turnOf (service : VmSchedulerWorkSnapshot × VmSchedulerClass) :
    (VmSchedulerClass → Bool) × Option VmSchedulerClass :=
  (fun class_ => service.1.runnableIn class_ > 0, some service.2)

theorem recordStealResult_keeps (cursor : Fin width → Fin 6) (thief : Nat) (transferred : UInt64) :
    Keeps (fun s : VmWorkStealingPolicy width => s.serviceCursor = cursor)
      (recordStealResult thief transferred) := by
  unfold recordStealResult
  refine leads_check_bind (fun _ h => h) fun index _ => keeps_get_bind fun self => ?_
  refine leads_check_bind (fun _ h => h) fun _ _ => ?_
  refine leads_ite (fun _ => ?_) fun _ => ?_
  · exact leads_modify fun _ h => h
  · exact leads_modify fun _ h => h

/-- A decision moves the cursor of a scheduler exactly by a service of its own. -/
theorem cursor_of_decision {s : VmWorkStealingPolicy width}
    {outcome : VmWorkStealingPolicy width × Except (Fault String) VmWorkDirective}
    (h : Decision s thief table outcome) :
    (∃ served, outcome.2 = .ok (.serveLocal served) ∧ ∃ after,
        s.turn thief (table thief) = (after, some served) ∧
          outcome.1.serviceCursor = Function.update s.serviceCursor thief after) ∨
      ((∀ served, outcome.2 ≠ .ok (.serveLocal served)) ∧
        outcome.1.serviceCursor = s.serviceCursor) := by
  cases h with
  | backoff | failed | steal | sleep => exact .inr ⟨nofun, rfl⟩
  | serveLocal _ _ _ turn => exact .inl ⟨_, rfl, _, turn, rfl⟩

theorem serviceOf_serveLocal {thief index : Fin width} {scheduler : Nat}
    {snapshots : List VmSchedulerWorkSnapshot}
    (valid : validateSnapshots width scheduler snapshots = .ok (index, table))
    (served : VmSchedulerClass) :
    serviceOf thief (.decide scheduler snapshots, .decided (.ok (.serveLocal served))) =
      if index = thief then some (table thief, served) else none := by
  simp only [serviceOf, valid]

theorem serviceOf_other {scheduler : Nat}
    {snapshots : List VmSchedulerWorkSnapshot} {result : Except (Fault String) VmWorkDirective}
    (other : ∀ served, result ≠ .ok (.serveLocal served)) :
    serviceOf thief (.decide scheduler snapshots, .decided result) = none := by
  rcases result with e | (class_ | plan | polls | _)
  · rfl
  · exact absurd rfl (other class_)
  · rfl
  · rfl
  · rfl

theorem serviceOf_call (thief : Fin width) (request : Request) :
    (serviceOf thief (request, (s.call request).2) = none ∧
        (s.call request).1.serviceCursor thief = s.serviceCursor thief) ∨
      ∃ service, serviceOf thief (request, (s.call request).2) = some service ∧
        s.turn thief service.1 = ((s.call request).1.serviceCursor thief, some service.2) := by
  cases request with
  | recordStealResult scheduler transferred =>
    exact .inl ⟨rfl, congrFun (recordStealResult_keeps s.serviceCursor scheduler transferred s rfl)
      thief⟩
  | decide scheduler snapshots =>
    cases valid : validateSnapshots width scheduler snapshots with
    | error e =>
      have run : (decide scheduler snapshots).call s = (s, .error e) := by
        unfold decide
        rw [call_check_bind, valid]
      left
      change serviceOf thief (_, .decided ((decide scheduler snapshots).call s).2) = _ ∧
        ((decide scheduler snapshots).call s).1.serviceCursor thief = _
      rw [run]
      exact ⟨serviceOf_other nofun, rfl⟩
    | ok found =>
      obtain ⟨index, table⟩ := found
      change (serviceOf thief (_, .decided ((decide scheduler snapshots).call s).2) = _ ∧
          ((decide scheduler snapshots).call s).1.serviceCursor thief = _) ∨
        ∃ service : VmSchedulerWorkSnapshot × VmSchedulerClass,
          serviceOf thief (_, .decided ((decide scheduler snapshots).call s).2) = _ ∧
          s.turn thief service.1 =
            (((decide scheduler snapshots).call s).1.serviceCursor thief, some service.2)
      rcases cursor_of_decision (decide_decision (s := s) valid) with
        ⟨served, told, after, turn, moved⟩ | ⟨other, same⟩
      · rw [told, moved, serviceOf_serveLocal valid]
        by_cases own : index = thief
        · subst own
          rw [if_pos rfl, Function.update_self]
          exact .inr ⟨_, rfl, turn⟩
        · rw [if_neg own, Function.update_of_ne fun same => own same.symm]
          exact .inl ⟨rfl, rfl⟩
      · exact .inl ⟨serviceOf_other other, congrFun same thief⟩

theorem services_turns (thief : Fin width) (s : VmWorkStealingPolicy width)
    (requests : List Request) : Rotation.Turns serviceCycle (s.serviceCursor thief)
      ((services thief (replay call s requests).2).map turnOf) := by
  induction requests generalizing s with
  | nil => trivial
  | cons request requests ih =>
    have rest := ih (s.call request).1
    unfold services at rest ⊢
    rw [replay_cons_snd, filterMap_cons]
    rcases serviceOf_call s thief request with ⟨none_, same⟩ | ⟨service, some_, turn⟩
    · rw [none_, ← same]
      exact rest
    · rw [some_]
      exact ⟨_, turn, rest⟩

/-- Every class with local work is served within six local services. -/
def ServedInTurn (width : Nat) (events : List (Request × Reply)) : Prop :=
  ∀ (thief : Fin width) (window : List (VmSchedulerWorkSnapshot × VmSchedulerClass))
    (class_ : VmSchedulerClass), window <:+: services thief events → window.length = 6 →
      (∀ service ∈ window, 0 < service.1.runnableIn class_) →
        ∃ service ∈ window, service.2 = class_

theorem servedInTurn (requests : List Request) : ServedInTurn width (replay call s requests).2 := by
  intro thief window class_ part six work
  obtain ⟨slot, rfl⟩ := exists_slot class_
  have busy : ∀ turn ∈ window.map turnOf, turn.1 (serviceCycle slot) = true := by
    intro turn mem
    obtain ⟨service, listed, rfl⟩ := mem_map.mp mem
    exact decide_eq_true (work service listed)
  obtain ⟨turn, mem, hit⟩ := Rotation.served_of_busy (services_turns thief s requests)
    (part.map turnOf) (by rw [length_map, six]) busy
  obtain ⟨service, listed, rfl⟩ := mem_map.mp mem
  exact ⟨service, listed, Option.some.inj hit⟩

/-- In a run local work is withheld from no scheduler, and served in turn, exactly when none is
asked for while it has both local work and a failed steal to wait for. -/
theorem local_work_iff (s : VmWorkStealingPolicy width) (requests : List Request) :
    ((∀ event ∈ (replay call s requests).2, NotWithheld width event) ∧
        ServedInTurn width (replay call s requests).2) ↔ Guarded call Rested s requests := by
  rw [and_iff_left (servedInTurn s requests)]
  induction requests generalizing s with
  | nil => exact iff_of_true (fun _ mem => absurd mem not_mem_nil) trivial
  | cons request requests ih =>
    rw [replay_cons_snd, forall_mem_cons, ih]
    exact and_congr_left fun _ => notWithheld_iff s request

/-- The steal of an idle scheduler fails, then work arrives at the scheduler itself. -/
def arrivalAfterFailedSteal : List Request :=
  let idle : VmSchedulerWorkSnapshot := ⟨0, fun _ => 0, fun _ => 0⟩
  let busy (scheduler : Nat) : VmSchedulerWorkSnapshot := ⟨scheduler, fun _ => 1, fun _ => 0⟩
  [.decide 0 [idle, busy 1], .recordStealResult 0 0, .decide 0 [busy 0, busy 1]]

theorem backoff_with_local_work :
    ∃ fits, new 2 VmWorkStealingConfig.default = .ok (initial .default fits) ∧
      ¬ ∀ event ∈ (replay call (@initial 2 .default fits) arrivalAfterFailedSteal).2,
        NotWithheld 2 event := by
  refine ⟨by decide, rfl, fun never => ?_⟩
  have last : (replay call (@initial 2 .default (by decide)) arrivalAfterFailedSteal).2.getLast? =
      some (_, .decided (.ok (.backoff 0))) := rfl
  exact never _ (mem_of_getLast? last) 0 ⟨_, rfl, by decide⟩ 0 rfl

end VmWorkStealingPolicy

end Terlan.WorkStealing
