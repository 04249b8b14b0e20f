/-
  Packed state word of one actor: lifecycle, generation of the actor in its slot, generation
  of the last ownership grant, and owner, in one `u64`. `unpackState_packState` says that the
  four fields do not disturb each other.
-/
import Terlan.Lib.Checked
import Terlan.Lib.TreeMap

namespace Terlan.ActorDirectory

open Terlan.Lib
open Std (TransOrd TransCmp LawfulEqOrd)

/-- Identity of a process, from the process table's monotonic allocator. -/
structure VmProcessId where
  value : UInt64
deriving DecidableEq

theorem VmProcessId.ext_value {a b : VmProcessId} (h : a.value = b.value) : a = b := by
  cases a; cases b; cases h; rfl

instance : Ord VmProcessId := ⟨compareOn VmProcessId.value⟩

instance : TransOrd VmProcessId := inferInstanceAs (TransCmp (compareOn VmProcessId.value))

instance : LawfulEqOrd VmProcessId := lawfulEqCmp_compareOn fun _ _ => VmProcessId.ext_value

/-- Atomic lifecycle states shared by lookup, scheduling and retirement. -/
inductive VmActorLifecycle where
  | queued
  | executing
  | yielding
  | parked
  | migrating
  | exiting
  | retired
  | reclaimed
deriving DecidableEq

/-- Reference to one directory cell, qualified by the generation of its slot. -/
structure VmActorHandle where
  pid : VmProcessId
  slot : Nat
  actorGeneration : UInt64
deriving DecidableEq

/-- Exclusive permission to mutate one actor. -/
structure VmActorMutatorToken where
  handle : VmActorHandle
  owner : UInt64
  ownerGeneration : UInt64
  lifecycle : VmActorLifecycle
deriving DecidableEq

inductive VmActorDirectoryError where
  | missingActor (pid : VmProcessId)
  | staleHandle (handle : VmActorHandle)
  | corruptLifecycle (value : UInt8)
  | invalidTransition (source destination : VmActorLifecycle)
  | alreadyOwned (owner ownerGeneration : UInt64)
  | staleMutator
  | invalidOwner (owner : UInt64)
  | lookupPinned (pins : Nat)
  | slotCapacityExceeded
  | mailboxFull (handle : VmActorHandle)
  | transferMailboxNotDrained (pending : Nat)
deriving DecidableEq

open VmActorDirectoryError

/-! ## The word -/

/-- `lifecycle as u64`. -/
def VmActorLifecycle.tag : VmActorLifecycle → UInt64
  | .queued => 1
  | .executing => 2
  | .yielding => 3
  | .parked => 4
  | .migrating => 5
  | .exiting => 6
  | .retired => 7
  | .reclaimed => 8

def lifecycleMask : UInt64 := ((1 : UInt64) <<< 4) - 1
def generationMask : UInt64 := ((1 : UInt64) <<< 20) - 1

def VmActorLifecycle.fromWord (word : UInt64) : Except VmActorDirectoryError VmActorLifecycle :=
  match word &&& lifecycleMask with
  | 1 => .ok .queued
  | 2 => .ok .executing
  | 3 => .ok .yielding
  | 4 => .ok .parked
  | 5 => .ok .migrating
  | 6 => .ok .exiting
  | 7 => .ok .retired
  | 8 => .ok .reclaimed
  | value => .error (corruptLifecycle value.toUInt8)

structure VmActorState where
  lifecycle : VmActorLifecycle
  actorGeneration : UInt64
  ownerGeneration : UInt64
  owner : UInt64

def packState (lifecycle : VmActorLifecycle) (actorGeneration ownerGeneration owner : UInt64) :
    UInt64 :=
  lifecycle.tag
    ||| ((actorGeneration &&& generationMask) <<< 4)
    ||| ((ownerGeneration &&& generationMask) <<< 24)
    ||| ((owner &&& generationMask) <<< 44)

def unpackState (word : UInt64) : Except VmActorDirectoryError VmActorState := do
  let lifecycle ← VmActorLifecycle.fromWord word
  pure
    { lifecycle
      actorGeneration := (word >>> 4) &&& generationMask
      ownerGeneration := (word >>> 24) &&& generationMask
      owner := (word >>> 44) &&& generationMask }

/-- The next of the `2 ^ 20 - 1` generations; zero is none of them. -/
def nextGeneration (current : UInt64) : UInt64 :=
  max ((current + 1) &&& generationMask) 1

/-- What a failed compare-exchange reports. -/
def ownershipRaceError (word : UInt64) : VmActorDirectoryError :=
  match unpackState word with
  | .ok state =>
    if state.owner ≠ 0 then alreadyOwned state.owner state.ownerGeneration else staleMutator
  | .error _ => staleMutator

/-! ## Fields of the word -/

theorem getLsbD_generationMask (i : Nat) : generationMask.toBitVec.getLsbD i = decide (i < 20) := by
  have literal : generationMask.toBitVec = BitVec.ofNat 64 (2 ^ 20 - 1) := by decide
  rw [literal, BitVec.getLsbD_ofNat, Nat.testBit_two_pow_sub_one]
  by_cases small : i < 20
  · simp only [small, decide_true, Bool.and_true, decide_eq_true_eq]
    omega
  · simp [small]

theorem getLsbD_lifecycleMask (i : Nat) : lifecycleMask.toBitVec.getLsbD i = decide (i < 4) := by
  have literal : lifecycleMask.toBitVec = BitVec.ofNat 64 (2 ^ 4 - 1) := by decide
  rw [literal, BitVec.getLsbD_ofNat, Nat.testBit_two_pow_sub_one]
  by_cases small : i < 4
  · simp only [small, decide_true, Bool.and_true, decide_eq_true_eq]
    omega
  · simp [small]

theorem getLsbD_tag (lifecycle : VmActorLifecycle) {i : Nat} (high : 4 ≤ i) :
    lifecycle.tag.toBitVec.getLsbD i = false := by
  have small : lifecycle.tag.toNat < 2 ^ 4 := by cases lifecycle <;> decide
  exact Nat.testBit_lt_two_pow (Nat.lt_of_lt_of_le small (Nat.pow_le_pow_right (by omega) high))

/-- Each bit of the word belongs to one field. -/
theorem getLsbD_packState (lifecycle : VmActorLifecycle)
    (actorGeneration ownerGeneration owner : UInt64) {i : Nat} (inside : i < 64) :
    (packState lifecycle actorGeneration ownerGeneration owner).toBitVec.getLsbD i =
      if i < 4 then lifecycle.tag.toBitVec.getLsbD i
      else if i < 24 then actorGeneration.toBitVec.getLsbD (i - 4)
      else if i < 44 then ownerGeneration.toBitVec.getLsbD (i - 24)
      else owner.toBitVec.getLsbD (i - 44) := by
  have bits : (packState lifecycle actorGeneration ownerGeneration owner).toBitVec.getLsbD i =
      (lifecycle.tag.toBitVec.getLsbD i
        || !decide (i < 4) && (actorGeneration.toBitVec.getLsbD (i - 4) && decide (i - 4 < 20))
        || !decide (i < 24) && (ownerGeneration.toBitVec.getLsbD (i - 24) && decide (i - 24 < 20))
        || !decide (i < 44) && (owner.toBitVec.getLsbD (i - 44) && decide (i - 44 < 20))) := by
    simp [packState, getLsbD_generationMask, inside, -BitVec.getLsbD_eq_getElem]
  rw [bits]
  by_cases tag : i < 4
  · have second : i < 24 := by omega
    have third : i < 44 := by omega
    simp [tag, second, third]
  rw [getLsbD_tag lifecycle (by omega)]
  by_cases second : i < 24
  · have width : i - 4 < 20 := by omega
    have third : i < 44 := by omega
    simp [tag, second, third, width]
  have past : ¬ i - 4 < 20 := by omega
  by_cases third : i < 44
  · have width : i - 24 < 20 := by omega
    simp [tag, second, third, past, width]
  · have past' : ¬ i - 24 < 20 := by omega
    have width : i - 44 < 20 := by omega
    simp [tag, second, third, past, past', width]

/-- Reading a field back: the bits at its place under the mask. -/
theorem getLsbD_shifted (word : UInt64) {shift i : Nat} (small : shift < 64) :
    ((word >>> UInt64.ofNat shift) &&& generationMask).toBitVec.getLsbD i =
      (word.toBitVec.getLsbD (shift + i) && decide (i < 20)) := by
  have place : shift % 64 = shift := Nat.mod_eq_of_lt small
  simp [getLsbD_generationMask, place]

theorem fromWord_packState (lifecycle : VmActorLifecycle)
    (actorGeneration ownerGeneration owner : UInt64) :
    VmActorLifecycle.fromWord (packState lifecycle actorGeneration ownerGeneration owner) =
      .ok lifecycle := by
  have low : packState lifecycle actorGeneration ownerGeneration owner &&& lifecycleMask =
      lifecycle.tag := by
    apply UInt64.toBitVec_inj.mp
    apply BitVec.eq_of_getLsbD_eq
    intro i inside
    rw [UInt64.toBitVec_and, BitVec.getLsbD_and, getLsbD_packState _ _ _ _ inside,
      getLsbD_lifecycleMask]
    by_cases tag : i < 4
    · simp [tag]
    · rw [getLsbD_tag lifecycle (by omega)]
      simp [tag]
  unfold VmActorLifecycle.fromWord
  rw [low]
  cases lifecycle <;> rfl

/-- The four fields do not disturb each other. -/
theorem unpackState_packState (lifecycle : VmActorLifecycle)
    (actorGeneration ownerGeneration owner : UInt64) :
    unpackState (packState lifecycle actorGeneration ownerGeneration owner) =
      .ok
        { lifecycle
          actorGeneration := actorGeneration &&& generationMask
          ownerGeneration := ownerGeneration &&& generationMask
          owner := owner &&& generationMask } := by
  have field : ∀ (word value : UInt64) (shift : Nat), shift < 64 →
      (∀ i < 20, word.toBitVec.getLsbD (shift + i) = value.toBitVec.getLsbD i) →
        (word >>> UInt64.ofNat shift) &&& generationMask = value &&& generationMask := by
    intro word value shift small same
    apply UInt64.toBitVec_inj.mp
    apply BitVec.eq_of_getLsbD_eq
    intro i _
    rw [getLsbD_shifted word small, UInt64.toBitVec_and, BitVec.getLsbD_and,
      getLsbD_generationMask]
    by_cases width : i < 20
    · rw [same i width]
    · simp [width]
  have second := field (packState lifecycle actorGeneration ownerGeneration owner)
    actorGeneration 4 (by omega) fun i width => by
      rw [getLsbD_packState _ _ _ _ (by omega), if_neg (by omega), if_pos (by omega)]
      congr 1
      omega
  have third := field (packState lifecycle actorGeneration ownerGeneration owner)
    ownerGeneration 24 (by omega) fun i width => by
      rw [getLsbD_packState _ _ _ _ (by omega), if_neg (by omega), if_neg (by omega),
        if_pos (by omega)]
      congr 1
      omega
  have fourth := field (packState lifecycle actorGeneration ownerGeneration owner)
    owner 44 (by omega) fun i width => by
      rw [getLsbD_packState _ _ _ _ (by omega), if_neg (by omega), if_neg (by omega),
        if_neg (by omega)]
      congr 1
      omega
  unfold unpackState
  rw [fromWord_packState, ← second, ← third, ← fourth]
  rfl

theorem and_generationMask {value : UInt64} (small : value.toNat < 2 ^ 20) :
    value &&& generationMask = value := by
  apply UInt64.toNat_inj.mp
  have mask : generationMask.toNat = 2 ^ 20 - 1 := by decide
  rw [UInt64.toNat_and, mask, Nat.and_two_pow_sub_one_eq_mod, Nat.mod_eq_of_lt small]

theorem and_generationMask_lt (value : UInt64) : (value &&& generationMask).toNat < 2 ^ 20 := by
  have mask : generationMask.toNat = 2 ^ 20 - 1 := by decide
  rw [UInt64.toNat_and, mask, Nat.and_two_pow_sub_one_eq_mod]
  exact Nat.mod_lt _ (by omega)

variable {state : VmActorState}

/-- Fields that were read fit into their places. -/
theorem unpackState_fits {word : UInt64} (read : unpackState word = .ok state) :
    state.actorGeneration.toNat < 2 ^ 20 ∧ state.ownerGeneration.toNat < 2 ^ 20 ∧
      state.owner.toNat < 2 ^ 20 := by
  obtain ⟨lifecycle, _, same⟩ := except_bind_ok_iff.mp read
  cases same
  exact ⟨and_generationMask_lt _, and_generationMask_lt _, and_generationMask_lt _⟩

/-- A word that is written back with some fields changed reads as the changed fields. -/
theorem unpackState_write {word ownerGeneration owner : UInt64}
    (read : unpackState word = .ok state) (lifecycle : VmActorLifecycle)
    (generationFits : ownerGeneration.toNat < 2 ^ 20) (ownerFits : owner.toNat < 2 ^ 20) :
    unpackState (packState lifecycle state.actorGeneration ownerGeneration owner) =
      .ok ⟨lifecycle, state.actorGeneration, ownerGeneration, owner⟩ := by
  rw [unpackState_packState, and_generationMask (unpackState_fits read).1,
    and_generationMask generationFits, and_generationMask ownerFits]

/-- A word that is written back without an owner. -/
theorem unpackState_unowned {word : UInt64}
    (read : unpackState word = .ok state) (lifecycle : VmActorLifecycle) :
    unpackState (packState lifecycle state.actorGeneration state.ownerGeneration 0) =
      .ok { state with lifecycle, owner := 0 } :=
  unpackState_write read lifecycle (unpackState_fits read).2.1 (by decide)

/-! ## Generations -/

theorem nextGeneration_toNat {current : UInt64} (small : current.toNat < 2 ^ 20) :
    (nextGeneration current).toNat =
      if current.toNat = 2 ^ 20 - 1 then 1 else current.toNat + 1 := by
  have mask : generationMask.toNat = 2 ^ 20 - 1 := by decide
  have sum : ((current + 1) &&& generationMask).toNat = (current.toNat + 1) % 2 ^ 20 := by
    rw [UInt64.toNat_and, mask, Nat.and_two_pow_sub_one_eq_mod, UInt64.toNat_add]
    have one : (1 : UInt64).toNat = 1 := rfl
    rw [one]
    omega
  have larger : (nextGeneration current).toNat =
      max ((current + 1) &&& generationMask).toNat 1 := by
    unfold nextGeneration
    rw [UInt64.toNat_max]
    rfl
  rw [larger, sum]
  split
  next last => omega
  next => omega

/-- The generation of a slot after a number of insertions. -/
def generationAfter : Nat → UInt64
  | 0 => 0
  | insertions + 1 => nextGeneration (generationAfter insertions)

/-- Generations count from one and start over behind `2 ^ 20 - 1`. -/
theorem generationAfter_toNat (insertions : Nat) :
    (generationAfter (insertions + 1)).toNat = insertions % (2 ^ 20 - 1) + 1 := by
  induction insertions with
  | zero => rfl
  | succ insertions ih =>
    have bound := Nat.mod_lt insertions (show 0 < 2 ^ 20 - 1 by omega)
    rw [generationAfter, nextGeneration_toNat (by omega), ih]
    split
    next => omega
    next => omega

theorem generationAfter_lt (insertions : Nat) : (generationAfter insertions).toNat < 2 ^ 20 := by
  cases insertions with
  | zero => decide
  | succ insertions =>
    have bound := Nat.mod_lt insertions (show 0 < 2 ^ 20 - 1 by omega)
    rw [generationAfter_toNat]
    omega

/-- Two occupants of a slot have one generation when a multiple of `2 ^ 20 - 1` insertions
lies between them. -/
theorem generationAfter_eq_iff {earlier later : Nat} (first : 0 < earlier)
    (order : earlier ≤ later) :
    generationAfter earlier = generationAfter later ↔ (later - earlier) % (2 ^ 20 - 1) = 0 := by
  obtain ⟨e, rfl⟩ := Nat.exists_eq_add_of_lt first
  obtain ⟨l, rfl⟩ := Nat.exists_eq_add_of_lt (Nat.lt_of_lt_of_le first order)
  rw [← UInt64.toNat_inj]
  simp only [Nat.zero_add]
  rw [generationAfter_toNat, generationAfter_toNat]
  omega

end Terlan.ActorDirectory
