/-
  The distributed state table of the VM: one versioned entry for each scope, and `write`,
  the only call that changes it.

  Under the last-writer-wins policy a scope is a register that gives way to a strictly
  greater version, compared by sequence and then by writer node. `writeAll_lookup` says so
  for a whole run of writes: the entry held in the end is the first maximum of the entry
  held before and the accepted writes. `lastWriterWins_convergence` follows: runs made of
  the same writes, in any order and with any repetition, end in one store. The other three
  policies never replace an entry (`write_conflict`).

  Values are only stored and compared, so their type is a parameter.
-/
import Terlan.Lib.Replay
import Terlan.Lib.TreeMap
import Terlan.Lib.Order
import Mathlib.Data.String.Basic
import Mathlib.Data.Prod.Lex

namespace Terlan.DistributedState

open Terlan.Lib List
open Std (ExtTreeMap TransOrd TransCmp LawfulEqOrd ReflCmp)

/-! ## The table and its write -/

inductive VmDistributedStatePolicy where
  | winnerTakesAll
  | lastWriterWins
  | merge
  | explicitUserResolution
deriving DecidableEq

/-- Key of the table; ordered by namespace, then by key. -/
structure VmDistributedStateScope where
  stateNamespace : String
  key : String
deriving DecidableEq

instance : Ord VmDistributedStateScope :=
  ⟨compareLex (compareOn VmDistributedStateScope.stateNamespace)
    (compareOn VmDistributedStateScope.key)⟩

instance : TransOrd VmDistributedStateScope :=
  inferInstanceAs (TransCmp (compareLex (compareOn VmDistributedStateScope.stateNamespace)
    (compareOn VmDistributedStateScope.key)))

instance : LawfulEqOrd VmDistributedStateScope where
  compare_self :=
    (inferInstance : ReflCmp (compareLex (compareOn VmDistributedStateScope.stateNamespace)
      (compareOn VmDistributedStateScope.key))).compare_self
  eq_of_compare {a b} h := by
    have h : (compare a.stateNamespace b.stateNamespace).then (compare a.key b.key) = .eq := h
    obtain ⟨h₁, h₂⟩ := Ordering.then_eq_eq.mp h
    cases a
    cases b
    cases Std.compare_eq_iff_eq.mp h₁
    cases Std.compare_eq_iff_eq.mp h₂
    rfl

def VmDistributedStateScope.new (stateNamespace key : String) :
    Except String VmDistributedStateScope :=
  if stateNamespace = "" then
    .error "error[vm_distributed_state]: state namespace must be non-empty"
  else if key = "" then
    .error "error[vm_distributed_state]: state key must be non-empty"
  else .ok ⟨stateNamespace, key⟩

structure VmDistributedStateVersion where
  sequence : UInt64
  nodeId : String
deriving DecidableEq

def VmDistributedStateVersion.new (sequence : UInt64) (nodeId : String) :
    Except String VmDistributedStateVersion :=
  if sequence = 0 then
    .error "error[vm_distributed_state]: state version sequence must be non-zero"
  else if nodeId = "" then
    .error "error[vm_distributed_state]: state version node id must be non-empty"
  else .ok ⟨sequence, nodeId⟩

structure VmDistributedStateEntry (Value : Type*) where
  scope : VmDistributedStateScope
  ownerNodeId : String
  value : Value
  version : VmDistributedStateVersion
  policy : VmDistributedStatePolicy
deriving DecidableEq

structure VmDistributedStateConflict where
  scope : VmDistributedStateScope
  localVersion : VmDistributedStateVersion
  incomingVersion : VmDistributedStateVersion
  policy : VmDistributedStatePolicy

inductive VmDistributedStateWriteOutcome (Value : Type*) where
  | applied (entry : VmDistributedStateEntry Value)
  | replayed (entry : VmDistributedStateEntry Value)
  | conflict (conflict : VmDistributedStateConflict)
  | policyMismatch (scope : VmDistributedStateScope)
      (existingPolicy incomingPolicy : VmDistributedStatePolicy)

structure VmDistributedStateStore (Value : Type*) where
  entries : ExtTreeMap VmDistributedStateScope (VmDistributedStateEntry Value)

/-- Node ids are compared as the source compares them, by code points. -/
def shouldApplyIncomingVersion (localVersion incoming : VmDistributedStateVersion)
    (policy : VmDistributedStatePolicy) : Bool :=
  policy = .lastWriterWins ∧
    (incoming.sequence > localVersion.sequence ∨
      incoming.sequence = localVersion.sequence ∧ incoming.nodeId > localVersion.nodeId)

namespace VmDistributedStateStore

variable {Value : Type*} [DecidableEq Value]

def write (store : VmDistributedStateStore Value) (scope : VmDistributedStateScope)
    (ownerNodeId : String) (value : Value) (version : VmDistributedStateVersion)
    (policy : VmDistributedStatePolicy) :
    VmDistributedStateStore Value × Except String (VmDistributedStateWriteOutcome Value) :=
  if ownerNodeId = "" then
    (store, .error "error[vm_distributed_state]: state owner node id must be non-empty")
  else
    let incoming : VmDistributedStateEntry Value := ⟨scope, ownerNodeId, value, version, policy⟩
    match store.entries[scope]? with
    | none => (⟨store.entries.insert scope incoming⟩, .ok (.applied incoming))
    | some existing =>
      if existing.policy ≠ incoming.policy then
        (store, .ok (.policyMismatch scope existing.policy incoming.policy))
      else if existing.version = incoming.version ∧ existing = incoming then
        (store, .ok (.replayed existing))
      else if shouldApplyIncomingVersion existing.version incoming.version incoming.policy then
        (⟨store.entries.insert scope incoming⟩, .ok (.applied incoming))
      else
        (store, .ok (.conflict ⟨scope, existing.version, incoming.version, policy⟩))

/-- One write, given by the entry it would store. -/
def writeEntry (store : VmDistributedStateStore Value) (entry : VmDistributedStateEntry Value) :
    VmDistributedStateStore Value × Except String (VmDistributedStateWriteOutcome Value) :=
  store.write entry.scope entry.ownerNodeId entry.value entry.version entry.policy

/-- The store after a run of writes. -/
def writeAll (store : VmDistributedStateStore Value)
    (writes : List (VmDistributedStateEntry Value)) : VmDistributedStateStore Value :=
  (replay writeEntry store writes).1

end VmDistributedStateStore

/-! ## One write

`Accepted` writes name an owner. Under last-writer-wins an accepted write keeps the first
maximum of what the scope holds and what it brings. -/

section Write

variable {Value : Type*}

/-- Versions in the order in which `shouldApplyIncomingVersion` compares them. -/
def VmDistributedStateVersion.rank (version : VmDistributedStateVersion) : ℕ ×ₗ String :=
  toLex (version.sequence.toNat, version.nodeId)

theorem rank_lt_iff (a b : VmDistributedStateVersion) :
    a.rank < b.rank ↔ a.sequence < b.sequence ∨ a.sequence = b.sequence ∧ a.nodeId < b.nodeId := by
  rw [UInt64.lt_iff_toNat_lt, ← UInt64.toNat_inj]
  exact Prod.Lex.toLex_lt_toLex

theorem rank_injective {a b : VmDistributedStateVersion} (h : a.rank = b.rank) : a = b := by
  have h : (a.sequence.toNat, a.nodeId) = (b.sequence.toNat, b.nodeId) := h
  obtain ⟨sequence, nodeId⟩ := Prod.mk.inj h
  cases a
  cases b
  cases UInt64.toNat_inj.mp sequence
  cases nodeId
  rfl

theorem shouldApply_iff (localVersion incoming : VmDistributedStateVersion) :
    shouldApplyIncomingVersion localVersion incoming .lastWriterWins = true ↔
      localVersion.rank < incoming.rank := by
  rw [rank_lt_iff, @eq_comm _ localVersion.sequence]
  simp only [shouldApplyIncomingVersion, true_and, decide_eq_true_eq, gt_iff_lt]

theorem shouldApply_other {localVersion incoming : VmDistributedStateVersion}
    {policy : VmDistributedStatePolicy} (h : policy ≠ .lastWriterWins) :
    shouldApplyIncomingVersion localVersion incoming policy = false := by
  simp [shouldApplyIncomingVersion, h]

def VmDistributedStateEntry.Accepted (write : VmDistributedStateEntry Value) : Prop :=
  write.ownerNodeId ≠ ""

instance (write : VmDistributedStateEntry Value) : Decidable write.Accepted :=
  inferInstanceAs (Decidable (write.ownerNodeId ≠ ""))

variable [DecidableEq Value] (store : VmDistributedStateStore Value)
variable {entry : VmDistributedStateEntry Value}

theorem write_refused (h : ¬ entry.Accepted) : store.writeEntry entry =
      (store, .error "error[vm_distributed_state]: state owner node id must be non-empty") := by
  have h : entry.ownerNodeId = "" := not_not.mp h
  simp only [VmDistributedStateStore.writeEntry, VmDistributedStateStore.write, if_pos h]

/-- `write` on an accepted entry, in terms of that entry. -/
theorem write_accepted (accepted : entry.Accepted) :
    store.writeEntry entry =
      match store.entries[entry.scope]? with
      | none => (⟨store.entries.insert entry.scope entry⟩, .ok (.applied entry))
      | some existing =>
        if existing.policy ≠ entry.policy then
          (store, .ok (.policyMismatch entry.scope existing.policy entry.policy))
        else if existing.version = entry.version ∧ existing = entry then
          (store, .ok (.replayed existing))
        else if shouldApplyIncomingVersion existing.version entry.version entry.policy then
          (⟨store.entries.insert entry.scope entry⟩, .ok (.applied entry))
        else
          (store, .ok (.conflict ⟨entry.scope, existing.version, entry.version, entry.policy⟩)) := by
  unfold VmDistributedStateStore.writeEntry VmDistributedStateStore.write
  rw [if_neg accepted]

theorem write_policyMismatch {existing incoming : VmDistributedStateEntry Value}
    (accepted : incoming.Accepted) (held : store.entries[incoming.scope]? = some existing)
    (policy : existing.policy ≠ incoming.policy) : store.writeEntry incoming =
      (store, .ok (.policyMismatch incoming.scope existing.policy incoming.policy)) := by
  rw [write_accepted store accepted, held]
  exact if_pos policy

/-- A scope with another policy than last-writer-wins never gives up its entry. -/
theorem write_conflict {existing incoming : VmDistributedStateEntry Value}
    (accepted : incoming.Accepted) (held : store.entries[incoming.scope]? = some existing)
    (policy : existing.policy = incoming.policy) (fixed : incoming.policy ≠ .lastWriterWins)
    (differs : existing ≠ incoming) : store.writeEntry incoming = (store, .ok (.conflict
        ⟨incoming.scope, existing.version, incoming.version, incoming.policy⟩)) := by
  rw [write_accepted store accepted, held]
  simp [policy, shouldApply_other fixed, differs]

theorem write_other_scope (entry : VmDistributedStateEntry Value)
    {scope : VmDistributedStateScope} (h : entry.scope ≠ scope) :
    (store.writeEntry entry).1.entries[scope]? = store.entries[scope]? := by
  unfold VmDistributedStateStore.writeEntry VmDistributedStateStore.write
  dsimp only
  repeat' split
  all_goals first
    | rfl
    | exact getElem?_insert_of_ne _ _ h

/-- What an accepted last-writer-wins write leaves in its scope: the first maximum. -/
theorem write_lastWriterWins (accepted : entry.Accepted) (policy : entry.policy = .lastWriterWins)
    (held : ∀ existing, store.entries[entry.scope]? = some existing →
      existing.policy = .lastWriterWins) : (store.writeEntry entry).1.entries[entry.scope]? =
      List.argAux (fun incoming existing => existing.version.rank < incoming.version.rank)
        store.entries[entry.scope]? entry := by
  rw [write_accepted store accepted]
  cases found : store.entries[entry.scope]? with
  | none => exact getElem?_insert_self_eq _ _ _
  | some existing =>
    have same : ¬ existing.policy ≠ entry.policy := by simp [held existing found, policy]
    simp only [if_neg same, List.argAux]
    simp only [policy, shouldApply_iff]
    split
    next again =>
      have noGreater : ¬ existing.version.rank < entry.version.rank := by
        rw [again.1]
        exact lt_irrefl _
      rw [if_neg noGreater]
      exact found
    next =>
      split
      next => exact getElem?_insert_self_eq _ _ _
      next => exact found

theorem write_keeps_policy
    (policy : entry.policy = .lastWriterWins) {scope : VmDistributedStateScope}
    (held : ∀ existing, store.entries[scope]? = some existing → existing.policy = .lastWriterWins) :
    ∀ existing, (store.writeEntry entry).1.entries[scope]? = some existing →
      existing.policy = .lastWriterWins := by
  intro existing after
  by_cases accepted : entry.Accepted
  swap
  · rw [write_refused store accepted] at after
    exact held existing after
  by_cases same : entry.scope = scope
  swap
  · rw [write_other_scope store entry same] at after
    exact held existing after
  subst same
  rw [write_lastWriterWins store accepted policy held] at after
  cases found : store.entries[entry.scope]? with
  | none =>
    rw [found] at after
    cases after
    exact policy
  | some earlier =>
    rw [found] at after
    unfold List.argAux at after
    dsimp only at after
    split at after
    next => cases after; exact policy
    next => cases after; exact held _ found

/-- A last-writer-wins write leaves a scope under another policy alone. -/
theorem write_foreign_policy {entry existing : VmDistributedStateEntry Value}
    (policy : entry.policy = .lastWriterWins) (held : store.entries[entry.scope]? = some existing)
    (foreign : existing.policy ≠ .lastWriterWins) : (store.writeEntry entry).1 = store := by
  by_cases accepted : entry.Accepted
  · rw [write_policyMismatch store accepted held (by rw [policy]; exact foreign)]
  · rw [write_refused store accepted]

end Write

/-! ## Runs of writes -/

section Runs

variable {Value : Type*} [DecidableEq Value]

/-- The accepted writes of a run to one scope, in the order of the run. -/
def acceptedWrites (writes : List (VmDistributedStateEntry Value))
    (scope : VmDistributedStateScope) : List (VmDistributedStateEntry Value) :=
  writes.filter fun write => write.Accepted ∧ write.scope = scope

omit [DecidableEq Value] in
theorem mem_acceptedWrites {writes : List (VmDistributedStateEntry Value)}
    {scope : VmDistributedStateScope} {write : VmDistributedStateEntry Value} :
    write ∈ acceptedWrites writes scope ↔
      write ∈ writes ∧ write.Accepted ∧ write.scope = scope := by
  simp [acceptedWrites]

variable (store : VmDistributedStateStore Value) (writes : List (VmDistributedStateEntry Value))

/-- Run lemma for a last-writer-wins scope: it ends with the first maximum of the entry it
held and the accepted writes. -/
theorem writeAll_lookup
    (policy : ∀ write ∈ writes, write.policy = .lastWriterWins) (scope : VmDistributedStateScope)
    (held : ∀ existing, store.entries[scope]? = some existing → existing.policy = .lastWriterWins) :
    (store.writeAll writes).entries[scope]? =
      (store.entries[scope]?.toList ++ acceptedWrites writes scope).argmax
        fun entry => entry.version.rank := by
  induction writes generalizing store with
  | nil =>
    cases found : store.entries[scope]? <;>
      simp [VmDistributedStateStore.writeAll, acceptedWrites, found]
  | cons write rest ih =>
    have policyHead := policy write mem_cons_self
    have h := ih (store.writeEntry write).1
      (fun w hw => policy w (mem_cons_of_mem _ hw))
      (write_keeps_policy store policyHead held)
    rw [show store.writeAll (write :: rest) = (store.writeEntry write).1.writeAll rest from rfl, h]
    by_cases relevant : write.Accepted ∧ write.scope = scope
    · obtain ⟨accepted, rfl⟩ := relevant
      have kept : acceptedWrites (write :: rest) write.scope =
          write :: acceptedWrites rest write.scope :=
        filter_cons_of_pos (by simpa using accepted)
      rw [write_lastWriterWins store accepted policyHead held, kept]
      -- both sides fold the same step over the same list, one write apart
      cases store.entries[write.scope]? with
      | none => rfl
      | some existing =>
        simp only [List.argmax, Option.toList_some, cons_append, nil_append,
          foldl_cons, List.argAux]
        split <;> rfl
    · have dropped : acceptedWrites (write :: rest) scope = acceptedWrites rest scope :=
        filter_cons_of_neg (by simpa using relevant)
      rw [dropped]
      by_cases accepted : write.Accepted
      · rw [write_other_scope store write fun same => relevant ⟨accepted, same⟩]
      · rw [write_refused store accepted]

/-- A scope under another policy keeps its entry through every last-writer-wins write. -/
theorem writeAll_foreign_policy
    (policy : ∀ write ∈ writes, write.policy = .lastWriterWins) (scope : VmDistributedStateScope)
    (existing : VmDistributedStateEntry Value) (held : store.entries[scope]? = some existing)
    (foreign : existing.policy ≠ .lastWriterWins) :
    (store.writeAll writes).entries[scope]? = some existing := by
  induction writes generalizing store with
  | nil => exact held
  | cons write rest ih =>
    apply ih (store.writeEntry write).1 (fun w hw => policy w (mem_cons_of_mem _ hw))
    by_cases same : write.scope = scope
    · subst same
      rw [write_foreign_policy store (policy write mem_cons_self) held foreign]
      exact held
    · rw [write_other_scope store write same]
      exact held

/-- Writes that agree wherever their versions do: the same version of a scope is one entry. -/
def Consistent (writes : List (VmDistributedStateEntry Value)) : Prop :=
  ∀ a ∈ writes, ∀ b ∈ writes, a.scope = b.scope → a.version = b.version → a = b

/-- Two runs of the same writes end in one store. -/
theorem writeAll_congr {writes writes' : List (VmDistributedStateEntry Value)}
    (policy : ∀ write ∈ writes, write.policy = .lastWriterWins) (consistent : Consistent writes)
    (same : ∀ write, write ∈ writes ↔ write ∈ writes') :
    store.writeAll writes = store.writeAll writes' := by
  have policy' : ∀ write ∈ writes', write.policy = .lastWriterWins := fun w hw =>
    policy w ((same w).mpr hw)
  have lookups : ∀ scope : VmDistributedStateScope,
      (store.writeAll writes).entries[scope]? = (store.writeAll writes').entries[scope]? := by
    intro scope
    by_cases held : ∀ existing, store.entries[scope]? = some existing →
        existing.policy = .lastWriterWins
    · rw [writeAll_lookup store writes policy scope held,
        writeAll_lookup store writes' policy' scope held]
      apply argmax_register
      apply argmax_congr
      · intro write
        rw [mem_acceptedWrites, mem_acceptedWrites, same write]
      · intro a ha b hb ranks
        obtain ⟨ha, -, scopeA⟩ := mem_acceptedWrites.mp ha
        obtain ⟨hb, -, scopeB⟩ := mem_acceptedWrites.mp hb
        exact consistent a ha b hb (scopeA.trans scopeB.symm) (rank_injective ranks)
    · obtain ⟨existing, h⟩ := not_forall.mp held
      obtain ⟨found, foreign⟩ := Classical.not_imp.mp h
      rw [writeAll_foreign_policy store writes policy scope existing found foreign,
        writeAll_foreign_policy store writes' policy' scope existing found foreign]
  have entries := ExtTreeMap.ext_getElem? lookups
  cases h : store.writeAll writes
  cases h' : store.writeAll writes'
  rw [h, h'] at entries
  exact congrArg _ entries

/-- `held` is what a scope holds after the writes: the entry `initial` it held before or an
accepted write, with no accepted write above it; it replaced `initial` only by a strictly
greater version. -/
def HoldsMaximum (initial held : Option (VmDistributedStateEntry Value))
    (accepted : List (VmDistributedStateEntry Value)) : Prop :=
  match held with
  | none => initial = none ∧ accepted = []
  | some entry =>
    (initial = some entry ∨ entry ∈ accepted) ∧
      (∀ write ∈ accepted, write.version.rank ≤ entry.version.rank) ∧
        ∀ first, initial = some first →
          entry = first ∨ first.version.rank < entry.version.rank

theorem writeAll_holdsMaximum
    (policy : ∀ write ∈ writes, write.policy = .lastWriterWins) (scope : VmDistributedStateScope)
    (held : ∀ existing, store.entries[scope]? = some existing → existing.policy = .lastWriterWins) :
    HoldsMaximum store.entries[scope]? (store.writeAll writes).entries[scope]?
      (acceptedWrites writes scope) := by
  rw [writeAll_lookup store writes policy scope held]
  generalize store.entries[scope]? = initial
  unfold HoldsMaximum
  split
  next none =>
    have empty := argmax_eq_none.mp none
    simpa using empty
  next entry some =>
    refine ⟨?_, ?_, ?_⟩
    · have mem := argmax_mem some
      simpa [eq_comm] using mem
    · intro write mem
      have listed : write ∈ initial.toList ++ acceptedWrites writes scope :=
        mem_append_right _ mem
      exact le_of_mem_argmax (f := fun entry : VmDistributedStateEntry Value =>
        entry.version.rank) listed some
    · rintro first rfl
      exact argmax_first some

/-- **Last-writer-wins convergence.** Two runs made of the same last-writer-wins writes, in
any order and with any repetition, end in one store, and each last-writer-wins scope holds
its maximum version. -/
theorem lastWriterWins_convergence (store : VmDistributedStateStore Value)
    (writes writes' : List (VmDistributedStateEntry Value))
    (policy : ∀ write ∈ writes, write.policy = .lastWriterWins) (consistent : Consistent writes)
    (same : ∀ write, write ∈ writes ↔ write ∈ writes') :
    store.writeAll writes = store.writeAll writes' ∧
    (∀ scope, (∀ existing, store.entries[scope]? = some existing →
        existing.policy = .lastWriterWins) →
      HoldsMaximum store.entries[scope]? (store.writeAll writes).entries[scope]?
        (acceptedWrites writes scope)) ∧
    (∀ (store : VmDistributedStateStore Value) (existing incoming : VmDistributedStateEntry Value),
      incoming.Accepted → store.entries[incoming.scope]? = some existing →
        (existing.policy ≠ incoming.policy → store.writeEntry incoming =
          (store, .ok (.policyMismatch incoming.scope existing.policy incoming.policy))) ∧
        (existing.policy = incoming.policy → incoming.policy ≠ .lastWriterWins →
          existing ≠ incoming → store.writeEntry incoming = (store, .ok (.conflict
              ⟨incoming.scope, existing.version, incoming.version, incoming.policy⟩)))) :=
  ⟨writeAll_congr store policy consistent same,
    fun scope => writeAll_holdsMaximum store writes policy scope,
    fun store _ _ accepted held =>
      ⟨write_policyMismatch store accepted held, write_conflict store accepted held⟩⟩

/-- Two writers reach one scope with the same sequence: the greater node id holds it,
whichever write comes first and however often. -/
theorem lastWriterWins_convergence_tie :
    let scope : VmDistributedStateScope := ⟨"presence", "room-1"⟩
    let a : VmDistributedStateEntry Nat :=
      ⟨scope, "node-a", 1, ⟨9, "node-a"⟩, .lastWriterWins⟩
    let b : VmDistributedStateEntry Nat :=
      ⟨scope, "node-b", 2, ⟨9, "node-b"⟩, .lastWriterWins⟩
    (⟨∅⟩ : VmDistributedStateStore Nat).writeAll [a, b] =
      (⟨∅⟩ : VmDistributedStateStore Nat).writeAll [b, a, b] := by
  intro scope a b
  refine (lastWriterWins_convergence ⟨∅⟩ [a, b] [b, a, b] ?_ ?_ ?_).1
  · simp [a, b]
  · intro x hx y hy _ version
    simp only [mem_cons, not_mem_nil, or_false] at hx hy
    rcases hx with rfl | rfl <;> rcases hy with rfl | rfl
    · rfl
    · exact absurd version (by decide)
    · exact absurd version (by decide)
    · rfl
  · intro write
    simp only [mem_cons, not_mem_nil, or_false]
    constructor
    · rintro (h | h) <;> simp [h]
    · rintro (h | h | h) <;> simp [h]

end Runs

/-! ## Snapshots -/

section Snapshots

variable {Value : Type*}

namespace VmDistributedStateStore

def exportSnapshot (store : VmDistributedStateStore Value) : List (VmDistributedStateEntry Value) :=
  valuesOf store.entries

/-- One turn of the loop of `importSnapshot`. -/
def importEntry (store : VmDistributedStateStore Value) (entry : VmDistributedStateEntry Value) :
    Except String (VmDistributedStateStore Value) :=
  if entry.scope.stateNamespace = "" ∨ entry.scope.key = "" then
    .error "error[vm_distributed_state]: snapshot scope must be valid"
  else if entry.ownerNodeId = "" then
    .error "error[vm_distributed_state]: snapshot owner node id must be non-empty"
  else if entry.version.sequence = 0 ∨ entry.version.nodeId = "" then
    .error "error[vm_distributed_state]: snapshot version must be valid"
  else if entry.scope ∈ store.entries then
    .error "error[vm_distributed_state]: snapshot contains duplicate state scope"
  else .ok ⟨store.entries.insert entry.scope entry⟩

def importSnapshot (entries : List (VmDistributedStateEntry Value)) :
    Except String (VmDistributedStateStore Value) :=
  entries.foldlM importEntry ⟨∅⟩

/-- Each entry is held under its own scope. -/
def Keyed (store : VmDistributedStateStore Value) : Prop :=
  ∀ (scope : VmDistributedStateScope) entry, store.entries[scope]? = some entry →
    entry.scope = scope

/-- The stores that calls lead to. -/
inductive Reachable [DecidableEq Value] : VmDistributedStateStore Value → Prop
  | new : Reachable ⟨∅⟩
  | written {store : VmDistributedStateStore Value} (entry : VmDistributedStateEntry Value) :
      Reachable store → Reachable (store.writeEntry entry).1
  | imported {store : VmDistributedStateStore Value}
      (entries : List (VmDistributedStateEntry Value)) :
      importSnapshot entries = .ok store → Reachable store

variable {store : VmDistributedStateStore Value}

theorem Keyed.insert (keyed : store.Keyed) (entry : VmDistributedStateEntry Value) :
    Keyed ⟨store.entries.insert entry.scope entry⟩ := by
  intro scope held h
  dsimp only at h
  rw [getElem?_insert_eq] at h
  split at h
  next same =>
    cases h
    exact same
  next => exact keyed scope held h

/-- Stores that hold the same entries are one store. -/
theorem Keyed.ext {a b : VmDistributedStateStore Value} (ha : a.Keyed) (hb : b.Keyed)
    (h : ∀ entry : VmDistributedStateEntry Value,
      a.entries[entry.scope]? = some entry ↔ b.entries[entry.scope]? = some entry) : a = b := by
  have held (scope : VmDistributedStateScope) : a.entries[scope]? = b.entries[scope]? := by
    refine Option.ext fun entry => ?_
    constructor
    · intro own
      obtain rfl := ha scope entry own
      exact (h entry).mp own
    · intro own
      obtain rfl := hb scope entry own
      exact (h entry).mpr own
  have entries : a.entries = b.entries := ExtTreeMap.ext_getElem? fun scope => held scope
  cases a
  cases b
  cases entries
  rfl

theorem mem_exportSnapshot (keyed : store.Keyed) {entry : VmDistributedStateEntry Value} :
    entry ∈ store.exportSnapshot ↔ store.entries[entry.scope]? = some entry := by
  unfold exportSnapshot
  rw [mem_valuesOf]
  constructor
  · rintro ⟨scope, held⟩
    rwa [keyed scope entry held]
  · intro held
    exact ⟨entry.scope, held⟩

/-- The scopes of a snapshot come in their order. -/
theorem exportSnapshot_sorted (keyed : store.Keyed) :
    store.exportSnapshot.Pairwise fun a b => compare a.scope b.scope = .lt := by
  have sorted := @ExtTreeMap.ordered_keys_toList _ _ _ store.entries _
  refine pairwise_map.mpr (sorted.imp_of_mem fun {a b} ma mb less => ?_)
  have ka := keyed a.1 a.2 (ExtTreeMap.mem_toList_iff_getElem?_eq_some.mp ma)
  have kb := keyed b.1 b.2 (ExtTreeMap.mem_toList_iff_getElem?_eq_some.mp mb)
  rw [ka, kb]
  exact less

/-- What the loop of `importSnapshot` asks of an entry. -/
structure Importable (entry : VmDistributedStateEntry Value) : Prop where
  stateNamespace : entry.scope.stateNamespace ≠ ""
  key : entry.scope.key ≠ ""
  owner : entry.ownerNodeId ≠ ""
  sequence : entry.version.sequence ≠ 0
  node : entry.version.nodeId ≠ ""

theorem importEntry_ok_iff {store store' : VmDistributedStateStore Value}
    {entry : VmDistributedStateEntry Value} : store.importEntry entry = .ok store' ↔
      Importable entry ∧ entry.scope ∉ store.entries ∧
        store' = ⟨store.entries.insert entry.scope entry⟩ := by
  unfold importEntry
  split
  next bad =>
    refine iff_of_false (fun h => by cases h) ?_
    rintro ⟨valid, -, -⟩
    exact bad.elim valid.stateNamespace valid.key
  next named =>
    rw [not_or] at named
    split
    next bad =>
      refine iff_of_false (fun h => by cases h) ?_
      rintro ⟨valid, -, -⟩
      exact valid.owner bad
    next owner =>
      split
      next bad =>
        refine iff_of_false (fun h => by cases h) ?_
        rintro ⟨valid, -, -⟩
        exact bad.elim valid.sequence valid.node
      next version =>
        rw [not_or] at version
        split
        next held => exact iff_of_false (fun h => by cases h) fun h => h.2.1 held
        next fresh =>
          constructor
          · intro h
            cases h
            exact ⟨⟨named.1, named.2, owner, version.1, version.2⟩, fresh, rfl⟩
          · rintro ⟨-, -, rfl⟩
            rfl

variable {entries : List (VmDistributedStateEntry Value)}

theorem Keyed.importEntries {store store' : VmDistributedStateStore Value} (keyed : store.Keyed)
    (run : entries.foldlM importEntry store = .ok store') : store'.Keyed := by
  induction entries generalizing store with
  | nil =>
    cases run
    exact keyed
  | cons entry entries ih =>
    cases step : store.importEntry entry with
    | error message =>
      rw [foldlM_cons, step] at run
      cases run
    | ok next =>
      rw [foldlM_cons, step] at run
      obtain ⟨-, -, rfl⟩ := importEntry_ok_iff.mp step
      exact ih (keyed.insert entry) run

theorem Keyed.empty : (⟨∅⟩ : VmDistributedStateStore Value).Keyed := by
  intro scope entry held
  simp only [ExtTreeMap.getElem?_empty, reduceCtorEq] at held

theorem Reachable.keyed [DecidableEq Value] (h : store.Reachable) : store.Keyed := by
  induction h with
  | new => exact Keyed.empty
  | imported entries run => exact Keyed.empty.importEntries run
  | @written store entry _ keyed =>
    have inserted := keyed.insert entry
    unfold writeEntry write
    split
    · exact keyed
    dsimp only
    split
    · exact inserted
    split
    · exact keyed
    split
    · exact keyed
    split
    next => exact inserted
    next => exact keyed

/-- Entries with scopes of their own are imported as they are. -/
theorem importEntries_ok (importable : ∀ entry ∈ entries, Importable entry)
    (distinct : (entries.map (·.scope)).Nodup)
    (fresh : ∀ entry ∈ entries, entry.scope ∉ store.entries) :
    ∃ store', entries.foldlM importEntry store = .ok store' ∧
      ∀ entry : VmDistributedStateEntry Value, store'.entries[entry.scope]? = some entry ↔
        entry ∈ entries ∨ store.entries[entry.scope]? = some entry := by
  induction entries generalizing store with
  | nil => exact ⟨store, rfl, fun entry => by simp only [not_mem_nil, false_or]⟩
  | cons first entries ih =>
    obtain ⟨own, later⟩ := forall_mem_cons.mp importable
    obtain ⟨free, others⟩ := forall_mem_cons.mp fresh
    rw [map_cons, nodup_cons] at distinct
    have step := importEntry_ok_iff.mpr ⟨own, free, rfl⟩
    obtain ⟨store', run, holds⟩ := @ih ⟨store.entries.insert first.scope first⟩ later distinct.2
      fun entry mem held => by
        rw [Lib.mem_insert_iff] at held
        obtain same | held := held
        · exact distinct.1 (same ▸ mem_map_of_mem mem)
        · exact others entry mem held
    refine ⟨store', ?_, fun entry => ?_⟩
    · rw [foldlM_cons, step]
      exact run
    · rw [holds entry, mem_cons]
      dsimp only
      rw [getElem?_insert_eq]
      split
      next same =>
        have empty : store.entries[first.scope]? = none := ExtTreeMap.getElem?_eq_none free
        rw [← same, empty]
        simp only [Option.some.injEq, reduceCtorEq, or_false]
        rw [eq_comm, or_comm]
      next other =>
        have differs : entry ≠ first := fun same => other (same ▸ rfl)
        simp only [differs, false_or]

theorem importSnapshot_ok (importable : ∀ entry ∈ entries, Importable entry)
    (distinct : (entries.map (·.scope)).Nodup) :
    ∃ store, importSnapshot entries = .ok store ∧ store.Keyed ∧
      ∀ entry : VmDistributedStateEntry Value,
        store.entries[entry.scope]? = some entry ↔ entry ∈ entries := by
  obtain ⟨store, run, holds⟩ := importEntries_ok importable distinct
    fun entry _ => ExtTreeMap.not_mem_empty
  refine ⟨store, run, Keyed.empty.importEntries run, fun entry => ?_⟩
  rw [holds entry]
  simp only [ExtTreeMap.getElem?_empty, reduceCtorEq, or_false]

end VmDistributedStateStore

end Snapshots

end Terlan.DistributedState
