/-
  The index of a large map: a hash trie whose leaves are places in the list of entries.
  Building takes a list of places apart by five bits of the hash at a time; `Indexes` says
  that a node leads every hash to its places, in the order they were given.
-/
import Mathlib.Data.List.Sort
import Terlan.Lib.HashTrie

namespace Terlan.PersistentMap

open Terlan.Lib.HashTrie

variable {K V : Type}

/-! ## Layout -/

def sharedShapeFlatMapLimit : Nat := 128

def flatSmallMapLimit : Nat := 32

def leafBlockLimit : Nat := 8

def champBranchFactor : Nat := 32

def denseNodeMinOccupiedSlots : Nat := 17

def compressedPathMinSkippedLevels : Nat := 2

def activeIndexedMapMin : Nat := 128

def maxHashLevels : Nat := 13

inductive MapRootLayout where
  | flatSmallMap
  | aChampRoot
deriving DecidableEq

structure MapShapeHint where
  entryCount : Nat
  sharedLiteralKeyShape : Bool
  insertDeleteHeavy : Bool

def selectMapRootLayout (shape : MapShapeHint) : MapRootLayout :=
  if shape.entryCount ≤ flatSmallMapLimit then .flatSmallMap
  else if shape.sharedLiteralKeyShape ∧ ¬ shape.insertDeleteHeavy ∧
      shape.entryCount ≤ sharedShapeFlatMapLimit then .flatSmallMap
  else .aChampRoot

def shouldUseIndexedMap (entryCount : Nat) : Bool :=
  activeIndexedMapMin ≤ entryCount ∧
    selectMapRootLayout ⟨entryCount, false, true⟩ = .aChampRoot

inductive AChampNodeLayout where
  | sparseNode
  | denseNode
  | leafBlock
  | collisionNode
  | compressedPathNode

structure AChampSubtreeHint where
  entryCount : Nat
  occupiedSlots : Nat
  sharedPrefixLevels : Nat
  fullHashCollision : Bool

def selectAChampNodeLayout (shape : AChampSubtreeHint) : AChampNodeLayout :=
  if shape.fullHashCollision then .collisionNode
  else if shape.entryCount ≤ leafBlockLimit then .leafBlock
  else if compressedPathMinSkippedLevels ≤ shape.sharedPrefixLevels then .compressedPathNode
  else if denseNodeMinOccupiedSlots ≤ shape.occupiedSlots then .denseNode
  else .sparseNode

/-! ## Nodes -/

inductive AChampNode where
  | leafBlock (indices : List Nat)
  | sparseNode (children : List (Nat × AChampNode))
  | denseNode (children : List (Option AChampNode))
  | collisionNode (indices : List Nat)
  | compressedPathNode (slots : List Nat) (child : AChampNode)

structure HashedIndex where
  hash : UInt64
  index : Nat

def hashSlot (hash : UInt64) (level : Nat) : Nat :=
  ((hash >>> UInt64.ofNat (level % maxHashLevels * 5)) &&& 0b11111).toNat

def sharedSlotPrefix (entries : List HashedIndex) (level : Nat) : List Nat :=
  sharedPrefix (fun entry => hashSlot entry.hash) entries (maxHashLevels - level) level

def groupEntries (entries : List HashedIndex) (level : Nat) : List (Nat × List HashedIndex) :=
  groupBySlot champBranchFactor (fun entry => hashSlot entry.hash level) entries

/-- The direct slots of some children. -/
def denseSlots (children : List (Nat × AChampNode)) : List (Option AChampNode) :=
  children.foldl (fun slots child => slots.set child.1 (some child.2))
    (List.replicate champBranchFactor none)

theorem hashSlot_lt (hash : UInt64) (level : Nat) : hashSlot hash level < champBranchFactor := by
  unfold hashSlot
  rw [UInt64.toNat_and]
  exact Nat.lt_of_le_of_lt Nat.and_le_right (by decide)

theorem hashSlot_testBit (hash : UInt64) {level bit : Nat} (small : level < maxHashLevels)
    (inside : bit < 5) :
    (hashSlot hash level).testBit bit = hash.toNat.testBit (level * 5 + bit) := by
  have distance : (UInt64.ofNat (level % maxHashLevels * 5)).toNat % 64 = level * 5 := by
    rw [Nat.mod_eq_of_lt small]
    unfold maxHashLevels at small
    rw [UInt64.toNat_ofNat_of_lt' (by change _ < 2 ^ 64; omega)]
    omega
  have mask : (0b11111 : UInt64).toNat = 2 ^ 5 - 1 := by decide
  unfold hashSlot
  rw [UInt64.toNat_and, UInt64.toNat_shiftRight, distance, mask, Nat.testBit_and,
    Nat.testBit_two_pow_sub_one, Nat.testBit_shiftRight, decide_eq_true inside, Bool.and_true]

theorem hashSlot_mod (hash : UInt64) (level : Nat) :
    hashSlot hash (level % maxHashLevels) = hashSlot hash level := by
  unfold hashSlot
  rw [Nat.mod_mod]

/-- Hashes that share the slots of all levels are equal. -/
theorem hashSlot_separates {left right : UInt64} (start : Nat)
    (same : ∀ offset < maxHashLevels, hashSlot left (start + offset) = hashSlot right (start + offset)) :
    left = right := by
  have every : ∀ level < maxHashLevels, hashSlot left level = hashSlot right level := by
    intro level small
    unfold maxHashLevels at small
    obtain ⟨offset, inside, lands⟩ : ∃ offset < maxHashLevels,
        (start + offset) % maxHashLevels = level := by
      unfold maxHashLevels
      exact ⟨(level + 13 - start % 13) % 13, Nat.mod_lt _ (by decide), by omega⟩
    rw [← lands, hashSlot_mod, hashSlot_mod]
    exact same offset inside
  refine UInt64.toNat_inj.mp (Nat.eq_of_testBit_eq fun bit => ?_)
  rcases Nat.lt_or_ge bit 64 with inside | beyond
  · have small : bit / 5 < maxHashLevels := by unfold maxHashLevels; omega
    have place : bit / 5 * 5 + bit % 5 = bit := Nat.div_add_mod' bit 5
    have slot := congrArg (·.testBit (bit % 5)) (every (bit / 5) small)
    rw [hashSlot_testBit left small (Nat.mod_lt _ (by decide)),
      hashSlot_testBit right small (Nat.mod_lt _ (by decide)), place] at slot
    exact slot
  · have low : ∀ hash : UInt64, hash.toNat.testBit bit = false := fun hash =>
      Nat.testBit_lt_two_pow (Nat.lt_of_lt_of_le hash.toNat_lt (Nat.pow_le_pow_right (by decide) beyond))
    rw [low left, low right]

variable {entries : List HashedIndex}

/-- Entries of several hashes come apart at one of the next levels. -/
theorem apart_of_hash_ne (level : Nat)
    (several : ¬ ∀ left ∈ entries, ∀ right ∈ entries, left.hash = right.hash) :
    ∃ offset < maxHashLevels,
      ¬ Shares (fun entry : HashedIndex => hashSlot entry.hash) entries (level + offset) := by
  by_contra none
  have shared : ∀ offset < maxHashLevels,
      Shares (fun entry : HashedIndex => hashSlot entry.hash) entries (level + offset) :=
    fun offset inside => by_contra fun apart => none ⟨offset, inside, apart⟩
  refine several fun left memLeft right memRight => ?_
  exact hashSlot_separates level fun offset inside => shared offset inside left memLeft right memRight

/-- All entries have the hash of the first one. -/
def oneHash (entries : List HashedIndex) : Bool :=
  entries.head?.any fun first => entries.all (·.hash = first.hash)

theorem several_of_not_oneHash (long : ¬ entries.length ≤ leafBlockLimit)
    (several : ¬ oneHash entries = true) :
    ¬ ∀ left ∈ entries, ∀ right ∈ entries, left.hash = right.hash := by
  intro one
  cases entries with
  | nil => exact long (Nat.zero_le _)
  | cons first rest =>
    refine several (List.all_eq_true.mpr fun entry mem => ?_)
    exact decide_eq_true (one entry mem first List.mem_cons_self)

/-- The levels until the entries come apart, and how many there are. -/
def buildMeasure (entries : List HashedIndex) (level : Nat) : Nat × Nat :=
  (entries.length, spread (fun entry : HashedIndex => hashSlot entry.hash) entries maxHashLevels level)

theorem buildMeasure_skip {level : Nat}
    (long : ¬ entries.length ≤ leafBlockLimit) (several : ¬ oneHash entries = true)
    (shared : compressedPathMinSkippedLevels ≤ (sharedSlotPrefix entries level).length) :
    Prod.Lex (· < ·) (· < ·) (buildMeasure entries (level + (sharedSlotPrefix entries level).length))
      (buildMeasure entries level) := by
  obtain ⟨offset, inside, apart⟩ := apart_of_hash_ne level (several_of_not_oneHash long several)
  refine .right _ (spread_skip inside apart ?_ fun inner less => sharedPrefix_shares less)
  exact Nat.lt_of_lt_of_le (by decide) shared

theorem buildMeasure_group {level : Nat}
    (long : ¬ entries.length ≤ leafBlockLimit) (several : ¬ oneHash entries = true)
    {group : Nat × List HashedIndex} (mem : group ∈ groupEntries entries level) :
    Prod.Lex (· < ·) (· < ·) (buildMeasure group.2 (level + 1)) (buildMeasure entries level) := by
  obtain ⟨offset, inside, apart⟩ := apart_of_hash_ne level (several_of_not_oneHash long several)
  obtain ⟨-, filtered, -⟩ := mem_groupBySlot.mp mem
  unfold buildMeasure
  rw [filtered]
  rcases group_shrinks inside apart with shorter | ⟨same, nearer⟩
  · exact .left _ _ shorter
  · rw [same] at nearer ⊢
    exact .right _ nearer

def buildAChampNode (entries : List HashedIndex) (level : Nat) : AChampNode :=
  if entries.length ≤ leafBlockLimit then .leafBlock (entries.map (·.index))
  else if oneHash entries then .collisionNode (entries.map (·.index))
  else if compressedPathMinSkippedLevels ≤ (sharedSlotPrefix entries level).length then
    .compressedPathNode (sharedSlotPrefix entries level)
      (buildAChampNode entries (level + (sharedSlotPrefix entries level).length))
  else
    let children := (groupEntries entries level).attach.map fun group =>
      (group.1.1, buildAChampNode group.1.2 (level + 1))
    match selectAChampNodeLayout ⟨entries.length, children.length,
      (sharedSlotPrefix entries level).length, false⟩ with
    | .denseNode => .denseNode (denseSlots children)
    | _ => .sparseNode children
termination_by buildMeasure entries level
decreasing_by
  · exact buildMeasure_skip ‹_› ‹_› ‹_›
  · exact buildMeasure_group ‹_› ‹_› group.2

def prefixMatches (slots : List Nat) (hash : UInt64) (level : Nat) : Bool :=
  slots.zipIdx.all fun expected => hashSlot hash (level + expected.2) = expected.1

/-! ### Lookup -/

section Lookup

variable {α : Type} [BEq K]

/-- The two lookups of a leaf differ in what they return of an entry. -/
def lookupLeaf (base : List (K × V)) (key : K) (found : Nat → K × V → α) (indices : List Nat) :
    Option α :=
  indices.findSome? fun index =>
    match base[index]? with
    | none => none
    | some entry => if entry.1 == key then some (found index entry) else none

mutual

def lookupAChamp (base : List (K × V)) (key : K) (hash : UInt64) (found : Nat → K × V → α) :
    AChampNode → Nat → Option α
  | .leafBlock indices, _ => lookupLeaf base key found indices
  | .collisionNode indices, _ => lookupLeaf base key found indices
  | .sparseNode children, level =>
    lookupSparse base key hash found (hashSlot hash level) children (level + 1)
  | .denseNode children, level =>
    lookupDense base key hash found (hashSlot hash level) children (level + 1)
  | .compressedPathNode slots child, level =>
    if prefixMatches slots hash level then
      lookupAChamp base key hash found child (level + slots.length)
    else none

/-- Looks into the first child of a slot. -/
def lookupSparse (base : List (K × V)) (key : K) (hash : UInt64) (found : Nat → K × V → α)
    (slot : Nat) : List (Nat × AChampNode) → Nat → Option α
  | [], _ => none
  | (childSlot, child) :: rest, level =>
    if childSlot = slot then lookupAChamp base key hash found child level
    else lookupSparse base key hash found slot rest level

/-- Looks into the child at a slot. -/
def lookupDense (base : List (K × V)) (key : K) (hash : UInt64) (found : Nat → K × V → α) :
    Nat → List (Option AChampNode) → Nat → Option α
  | _, [], _ => none
  | 0, none :: _, _ => none
  | 0, some child :: _, level => lookupAChamp base key hash found child level
  | slot + 1, _ :: rest, level => lookupDense base key hash found slot rest level

end

def lookupAChampNode (base : List (K × V)) (node : AChampNode) (key : K) (hash : UInt64)
    (level : Nat) : Option V :=
  lookupAChamp base key hash (fun _ entry => entry.2) node level

def lookupAChampIndex (base : List (K × V)) (node : AChampNode) (key : K) (hash : UInt64)
    (level : Nat) : Option Nat :=
  lookupAChamp base key hash (fun index _ => index) node level

end Lookup

/-! ### Insertion -/

mutual

def collectAChampIndices : AChampNode → List Nat
  | .leafBlock indices => indices
  | .collisionNode indices => indices
  | .sparseNode children => collectSparse children
  | .denseNode children => collectDense children
  | .compressedPathNode _ child => collectAChampIndices child

def collectSparse : List (Nat × AChampNode) → List Nat
  | [] => []
  | (_, child) :: rest => collectAChampIndices child ++ collectSparse rest

def collectDense : List (Option AChampNode) → List Nat
  | [] => []
  | none :: rest => collectDense rest
  | some child :: rest => collectAChampIndices child ++ collectDense rest

end

section Insertion

variable [Hashable K]

def buildAChampRoot (entries : List (K × V)) : AChampNode :=
  buildAChampNode (entries.zipIdx.map fun entry => ⟨hash entry.1.1, entry.2⟩) 0

def rebuildNodeFromIndices (base : List (K × V)) (indices : List Nat) (level : Nat) : AChampNode :=
  buildAChampNode
    (indices.filterMap fun index => base[index]?.map fun entry => ⟨hash entry.1, index⟩) level

mutual

def insertAChampIndex (base : List (K × V)) (entry : HashedIndex) : AChampNode → Nat → AChampNode
  | .leafBlock indices, level =>
    let grown := indices ++ [entry.index]
    if leafBlockLimit < grown.length then rebuildNodeFromIndices base grown level
    else .leafBlock grown
  | .collisionNode indices, level =>
    let sameHash := (indices.head?.bind (base[·]?)).any fun first => hash first.1 = entry.hash
    let grown := indices ++ [entry.index]
    if sameHash then .collisionNode grown else rebuildNodeFromIndices base grown level
  | .sparseNode children, level =>
    match insertSparse base entry (hashSlot entry.hash level) children (level + 1) with
    | some children => .sparseNode children
    | none =>
      let grown := (children ++ [(hashSlot entry.hash level, AChampNode.leafBlock [entry.index])]).mergeSort
        fun left right => left.1 ≤ right.1
      if denseNodeMinOccupiedSlots ≤ grown.length then .denseNode (denseSlots grown)
      else .sparseNode grown
  | .denseNode children, level =>
    .denseNode (insertDense base entry (hashSlot entry.hash level) children (level + 1))
  | .compressedPathNode slots child, level =>
    if prefixMatches slots entry.hash level then
      .compressedPathNode slots (insertAChampIndex base entry child (level + slots.length))
    else
      rebuildNodeFromIndices base (collectAChampIndices child ++ [entry.index]) level

/-- Inserts into the first child of a slot, if there is one. -/
def insertSparse (base : List (K × V)) (entry : HashedIndex) (slot : Nat) :
    List (Nat × AChampNode) → Nat → Option (List (Nat × AChampNode))
  | [], _ => none
  | (childSlot, child) :: rest, level =>
    if childSlot = slot then some ((childSlot, insertAChampIndex base entry child level) :: rest)
    else (insertSparse base entry slot rest level).map ((childSlot, child) :: ·)

/-- Inserts at a slot; nothing happens beyond the last one. -/
def insertDense (base : List (K × V)) (entry : HashedIndex) :
    Nat → List (Option AChampNode) → Nat → List (Option AChampNode)
  | _, [], _ => []
  | 0, none :: rest, _ => some (.leafBlock [entry.index]) :: rest
  | 0, some child :: rest, level => some (insertAChampIndex base entry child level) :: rest
  | slot + 1, child :: rest, level => child :: insertDense base entry slot rest level

end

end Insertion

end Terlan.PersistentMap
