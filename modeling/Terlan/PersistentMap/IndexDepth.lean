/-
  The index of a base that grows: it is built from the first entries, and the others are inserted
  one after the other. `index_finds_each` says that it leads to the place of every key, for every
  hash, and that no node is below the last level of the hash, which ends both recursions.
-/
import Terlan.PersistentMap.Refinement

namespace Terlan.PersistentMap

open Terlan.Lib.HashTrie List

variable {K V : Type}

/-! ## Levels -/

/-- The node is at a level of the hash, and so are all nodes below it. -/
inductive Within : Nat → AChampNode → Prop
  | leafBlock {level : Nat} (indices : List Nat) (ends : level ≤ maxHashLevels) :
      Within level (.leafBlock indices)
  | collisionNode {level : Nat} (indices : List Nat) (ends : level ≤ maxHashLevels) :
      Within level (.collisionNode indices)
  | sparseNode {level : Nat} {children : List (Nat × AChampNode)} (branches : level < maxHashLevels)
      (below : ∀ child ∈ children, Within (level + 1) child.2) :
      Within level (.sparseNode children)
  | denseNode {level : Nat} {children : List (Option AChampNode)} (branches : level < maxHashLevels)
      (below : ∀ child ∈ occupiedFrom 0 children, Within (level + 1) child.2) :
      Within level (.denseNode children)
  | compressedPathNode {level : Nat} (slots : List Nat) {child : AChampNode}
      (below : Within (level + slots.length) child) :
      Within level (.compressedPathNode slots child)

theorem Within.level_le {level : Nat} {node : AChampNode} (within : Within level node) :
    level ≤ maxHashLevels := by
  induction within with
  | leafBlock indices ends | collisionNode indices ends => exact ends
  | sparseNode branches below ih | denseNode branches below ih => exact Nat.le_of_lt branches
  | compressedPathNode slots below ih => exact Nat.le_trans (Nat.le_add_right _ _) ih

/-- The entries share the slots of all levels above one. -/
def Together (entries : List HashedIndex) (level : Nat) : Prop :=
  ∀ above < level, Shares (fun entry : HashedIndex => hashSlot entry.hash) entries above

theorem length_sharedPrefix_le {ε : Type} (slot : ε → Nat → Nat) (entries : List ε) :
    ∀ remaining level, (sharedPrefix slot entries remaining level).length ≤ remaining := by
  intro remaining
  induction remaining with
  | zero => exact fun _ => Nat.le_refl _
  | succ remaining ih =>
    intro level
    rw [sharedPrefix]
    split
    · exact Nat.zero_le _
    split
    next => exact Nat.succ_le_succ (ih (level + 1))
    next => exact Nat.zero_le _

/-- Entries of several hashes that are together come apart before the last level. -/
theorem level_lt_of_several {entries : List HashedIndex} {level : Nat}
    (long : ¬ entries.length ≤ leafBlockLimit) (several : ¬ oneHash entries = true)
    (together : Together entries level) : level < maxHashLevels := by
  by_contra beyond
  refine several_of_not_oneHash long several fun left memLeft right memRight => ?_
  refine hashSlot_separates 0 fun offset inside => ?_
  rw [Nat.zero_add]
  exact together offset (by omega) left memLeft right memRight

theorem Together.group {entries : List HashedIndex} {level : Nat} (together : Together entries level)
    {group : Nat × List HashedIndex} (mem : group ∈ groupEntries entries level) :
    Together group.2 (level + 1) := by
  obtain ⟨-, filtered, -⟩ := mem_groupBySlot.mp mem
  intro above less left memLeft right memRight
  rw [filtered, mem_filter] at memLeft memRight
  rcases Nat.lt_succ_iff_lt_or_eq.mp less with before | rfl
  · exact together above before left memLeft.1 right memRight.1
  · exact (of_decide_eq_true memLeft.2).trans (of_decide_eq_true memRight.2).symm

/-- Building ends at the last level. -/
theorem buildAChampNode_within (entries : List HashedIndex) (level : Nat)
    (ends : level ≤ maxHashLevels) (together : Together entries level) :
    Within level (buildAChampNode entries level) := by
  have grouped : ∀ (entries : List HashedIndex) (level : Nat),
      ¬ entries.length ≤ leafBlockLimit → ¬ oneHash entries = true →
      ¬ compressedPathMinSkippedLevels ≤ (sharedSlotPrefix entries level).length →
      (∀ group : { group // group ∈ groupEntries entries level },
        level + 1 ≤ maxHashLevels → Together group.1.2 (level + 1) →
          Within (level + 1) (buildAChampNode group.1.2 (level + 1))) →
      Together entries level → Within level (buildAChampNode entries level) := by
    intro entries level long several unshared ih together
    have branches := level_lt_of_several long several together
    have below : ∀ child ∈ buildChildren entries level, Within (level + 1) child.2 := by
      intro child mem
      obtain ⟨group, memGroup, rfl⟩ := mem_map.mp mem
      exact ih ⟨group, memGroup⟩ branches (together.group memGroup)
    rcases buildAChampNode_groups long several unshared with dense | sparse
    · rw [dense]
      obtain ⟨distinct, small⟩ := buildChildren_slots entries level
      refine .denseNode branches fun child mem => below child ?_
      exact (denseSlots_perm distinct small).2.mem_iff.mp mem
    · rw [sparse]
      exact .sparseNode branches below
  induction entries, level using buildAChampNode.induct with
  | case1 entries level short =>
    rw [buildAChampNode, if_pos short]
    exact .leafBlock _ ends
  | case2 entries level long one =>
    rw [buildAChampNode, if_neg long, if_pos one]
    exact .collisionNode _ ends
  | case3 entries level long several shared ih =>
    rw [buildAChampNode, if_neg long, if_neg several, if_pos shared]
    have skipped : (sharedSlotPrefix entries level).length ≤ maxHashLevels - level :=
      length_sharedPrefix_le _ _ _ _
    refine .compressedPathNode _ (ih (by omega) fun above less => ?_)
    by_cases before : above < level
    · exact together above before
    have reached : level + (above - level) = above := by omega
    have inside : above - level < (sharedSlotPrefix entries level).length := by omega
    rw [← reached]
    exact sharedPrefix_shares inside
  | case4 entries level long several unshared children layout ih
  | case5 entries level long several unshared children layout ih =>
    exact grouped entries level long several unshared ih together

/-! ## Insertion -/

section Insertion

variable [Hashable K] {hashAt : Nat → UInt64} {base : List (K × V)}

/-- The places share the slots of an entry on all levels above one. -/
def Leads (hashAt : Nat → UInt64) (hash : UInt64) (level : Nat) (indices : List Nat) : Prop :=
  ∀ index ∈ indices, ∀ above < level, hashSlot (hashAt index) above = hashSlot hash above

theorem rebuildNodeFromIndices_within {indices : List Nat} {level : Nat} {hash : UInt64}
    (ends : level ≤ maxHashLevels) (stored : ∀ index ∈ indices, Stored hashAt base index)
    (leads : Leads hashAt hash level indices) :
    Within level (rebuildNodeFromIndices base indices level) := by
  rw [rebuildNodeFromIndices_eq level stored]
  refine buildAChampNode_within _ _ ends fun above less left memLeft right memRight => ?_
  obtain ⟨index, mem, rfl⟩ := mem_map.mp memLeft
  obtain ⟨index', mem', rfl⟩ := mem_map.mp memRight
  exact (leads index mem above less).trans (leads index' mem' above less).symm

theorem Leads.insert {level : Nat} {indices : List Nat} {entry : HashedIndex}
    (leads : Leads hashAt entry.hash level indices) (own : hashAt entry.index = entry.hash) :
    Leads hashAt entry.hash level (indices ++ [entry.index]) := by
  intro index mem above less
  rcases mem_append.mp mem with old | new
  · exact leads index old above less
  · rw [mem_singleton.mp new, own]

theorem Slotted.leads {level : Nat} {children : List (Nat × AChampNode)} {hash : UInt64}
    (slotted : Slotted hashAt level children) {child : Nat × AChampNode} (mem : child ∈ children)
    (hit : child.1 = hashSlot hash level) (leads : Leads hashAt hash level (collectSparse children)) :
    Leads hashAt hash (level + 1) (collectAChampIndices child.2) := by
  intro index memIndex above less
  rcases Nat.lt_succ_iff_lt_or_eq.mp less with before | rfl
  · refine leads index ?_ above before
    rw [collectSparse_eq]
    exact mem_flatMap.mpr ⟨child, mem, memIndex⟩
  · exact (slotted.slots child mem index memIndex).trans hit

theorem stored_child {children : List (Nat × AChampNode)} {entry : HashedIndex}
    (stored : ∀ index ∈ collectSparse children ++ [entry.index], Stored hashAt base index)
    {child : Nat × AChampNode} (mem : child ∈ children) :
    ∀ index ∈ collectAChampIndices child.2 ++ [entry.index], Stored hashAt base index := by
  intro index memIndex
  refine stored index (mem_append.mpr ((mem_append.mp memIndex).imp_left fun inside => ?_))
  rw [collectSparse_eq]
  exact mem_flatMap.mpr ⟨child, mem, inside⟩

/-- Children that have grown are as deep as before. -/
theorem Grown.within_below {entry : HashedIndex} {slot level : Nat}
    {before after : List (Nat × AChampNode)} (grown : Grown base entry slot (level + 1) before after)
    (branches : level < maxHashLevels) (below : ∀ child ∈ before, Within (level + 1) child.2)
    (inserts : ∀ child ∈ before, child.1 = slot →
      Within (level + 1) (insertAChampIndex base entry child.2 (level + 1))) :
    ∀ child ∈ after, Within (level + 1) child.2 := by
  intro child mem
  cases grown with
  | within others node old new =>
    rcases mem_append.mp (new.mem_iff.mp mem) with other | changed
    · exact below child (old.mem_iff.mpr (mem_append_left _ other))
    · rw [mem_singleton.mp changed]
      exact inserts (slot, node) (old.mem_iff.mpr (by simp)) rfl
  | added missing new =>
    rcases mem_append.mp (new.mem_iff.mp mem) with other | added
    · exact below child other
    · rw [mem_singleton.mp added]
      exact .leafBlock _ branches

/-- Inserting ends at the last level. -/
theorem insertAChampIndex_within {level : Nat} {node : AChampNode}
    (routed : Routed hashAt level node) {entry : HashedIndex}
    (own : hashAt entry.index = entry.hash)
    (stored : ∀ index ∈ collectAChampIndices node ++ [entry.index], Stored hashAt base index)
    (ends : level ≤ maxHashLevels) (within : Within level node)
    (leads : Leads hashAt entry.hash level (collectAChampIndices node)) :
    Within level (insertAChampIndex base entry node level) := by
  induction routed with
  | leafBlock level indices =>
    rw [insertAChampIndex]
    split
    next => exact rebuildNodeFromIndices_within ends stored (leads.insert own)
    next => exact .leafBlock _ ends
  | collisionNode level indices =>
    rw [insertAChampIndex]
    split
    next => exact .collisionNode _ ends
    next => exact rebuildNodeFromIndices_within ends stored (leads.insert own)
  | @sparseNode level children slotted below ih =>
    cases within with
    | sparseNode branches within =>
      rw [collectAChampIndices] at stored leads
      have inserts : ∀ child ∈ children, child.1 = hashSlot entry.hash level →
          Within (level + 1) (insertAChampIndex base entry child.2 (level + 1)) :=
        fun child mem hit => ih child mem (stored_child stored mem) branches (within child mem)
          (slotted.leads mem hit leads)
      have outcome := insertSparse_grown base entry (hashSlot entry.hash level) (level + 1) children
      rw [insertAChampIndex]
      cases inner : insertSparse base entry (hashSlot entry.hash level) children (level + 1) with
      | some after =>
        rw [inner] at outcome
        exact .sparseNode branches (outcome.within_below branches within inserts)
      | none =>
        rw [inner] at outcome
        dsimp only at outcome ⊢
        have added : Grown base entry (hashSlot entry.hash level) (level + 1) children _ :=
          .added outcome (mergeSort_perm _ fun left right => left.1 ≤ right.1)
        have within' := added.within_below branches within inserts
        obtain ⟨slotted', -, -⟩ := slotted.grown below own added fun child mem =>
          insertAChampIndex_indexes (below child mem) own (stored_child stored mem)
        split
        next =>
          refine .denseNode branches fun child mem => within' child ?_
          exact (denseSlots_perm slotted'.distinct slotted'.small).2.mem_iff.mp mem
        next => exact .sparseNode branches within'
  | @denseNode level children direct slotted below ih =>
    cases within with
    | denseNode branches within =>
      rw [collectAChampIndices, collectDense_eq children 0] at stored leads
      have grown := insertDense_grown base entry (level + 1) 0
        (show hashSlot entry.hash level < children.length by rw [direct]; exact hashSlot_lt _ _)
      rw [Nat.zero_add] at grown
      rw [insertAChampIndex]
      refine .denseNode branches (grown.within_below branches within fun child mem hit => ?_)
      exact ih child mem (stored_child stored mem) branches (within child mem)
        (slotted.leads mem hit leads)
  | @compressedPathNode level slots child path below ih =>
    cases within with
    | compressedPathNode _ within =>
      rw [insertAChampIndex]
      split
      next follows =>
        refine .compressedPathNode slots (ih stored within.level_le within ?_)
        intro index mem above less
        by_cases before : above < level
        · exact leads index mem above before
        have inside : above - level < slots.length := by omega
        have found := getElem?_eq_getElem inside
        have reached : level + (above - level) = above := by omega
        have old := prefixMatches_iff.mp (path index mem) _ _ found
        have new := prefixMatches_iff.mp follows _ _ found
        rw [reached] at old new
        exact old.trans new.symm
      next => exact rebuildNodeFromIndices_within ends stored (leads.insert own)

/-! ## A base that grows -/

/-- Inserts entries behind a base. -/
def insertAll (base : List (K × V)) (root : AChampNode) : List (K × V) → AChampNode
  | [] => root
  | entry :: rest =>
    insertAll (base ++ [entry])
      (insertAChampIndex (base ++ [entry]) ⟨hash entry.1, base.length⟩ root 0) rest

theorem insertAll_within {root : AChampNode} (index : IndexOf base root) (within : Within 0 root)
    (rest : List (K × V)) : Within 0 (insertAll base root rest) := by
  induction rest generalizing base root with
  | nil => exact within
  | cons entry rest ih =>
    obtain ⟨routed, own, stored⟩ := index.pushed entry.1 entry.2
    refine ih (index.push entry.1 entry.2) ?_
    exact insertAChampIndex_within routed own stored (Nat.zero_le _) within
      fun _ _ _ less => absurd less (Nat.not_lt_zero _)

theorem indexOf_insertAll {root : AChampNode} (index : IndexOf base root) (rest : List (K × V)) :
    IndexOf (base ++ rest) (insertAll base root rest) := by
  induction rest generalizing base root with
  | nil =>
    rw [append_nil]
    exact index
  | cons entry rest ih =>
    have grown := ih (index.push entry.1 entry.2)
    rw [append_assoc] at grown
    exact grown

/-- However the entries are divided between building and inserting, each key is found at its
place, no other key is found, and no node is below the last level. -/
theorem index_finds_each [BEq K] [ReflBEq K] [LawfulHashable K] (first rest : List (K × V))
    (distinct : ((first ++ rest).map Prod.fst).Pairwise fun a b => (a == b) = false) :
    (∀ (place : Nat) (entry : K × V), (first ++ rest)[place]? = some entry →
      lookupAChampIndex (first ++ rest) (insertAll first (buildAChampRoot first) rest) entry.1
        (hash entry.1) 0 = some place) ∧
    (∀ key, (∀ entry ∈ first ++ rest, (entry.1 == key) = false) →
      lookupAChampIndex (first ++ rest) (insertAll first (buildAChampRoot first) rest) key
        (hash key) 0 = none) ∧ Within 0 (insertAll first (buildAChampRoot first) rest) := by
  have index := indexOf_insertAll (indexOf_build first) rest
  refine ⟨fun place entry found => ?_, fun key absent => ?_, ?_⟩
  · rw [index.lookupAChampIndex, findIdx?_eq_some_iff_getElem]
    obtain ⟨inside, here⟩ := List.getElem?_eq_some_iff.mp found
    refine ⟨inside, by rw [here]; exact BEq.rfl, fun before less => ?_⟩
    have apart := pairwise_iff_getElem.mp (pairwise_map.mp distinct) before place
      (Nat.lt_trans less inside) inside less
    rw [here] at apart
    exact Bool.eq_false_iff.mp apart
  · rw [index.lookupAChampIndex, findIdx?_eq_none_iff]
    exact absent
  · refine insertAll_within (indexOf_build first) ?_ rest
    exact buildAChampNode_within _ 0 (Nat.zero_le _) fun _ less => absurd less (Nat.not_lt_zero _)

/-- Keys that all have one hash. -/
structure Colliding where
  number : Nat
deriving DecidableEq

instance : Hashable Colliding where
  hash _ := 0

/-- The second of two keys of one hash, inserted behind the first. -/
theorem index_finds_each_colliding : lookupAChampIndex [(Colliding.mk 0, ()), (Colliding.mk 1, ())]
      (insertAll [(Colliding.mk 0, ())] (buildAChampRoot [(Colliding.mk 0, ())])
        [(Colliding.mk 1, ())]) (Colliding.mk 1) 0 0 = some 1 := by
  have lawful : LawfulHashable Colliding := ⟨fun _ _ _ => rfl⟩
  exact (index_finds_each [(Colliding.mk 0, ())] [(Colliding.mk 1, ())] (by decide)).1 1
    (Colliding.mk 1, ()) rfl

end Insertion

end Terlan.PersistentMap
