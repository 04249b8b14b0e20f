/-
  What the index is for. `Routed` says that every place below a child has the slot of the
  child in its hash; a lookup in a routed node is a search of its places (`lookupAChamp_eq`),
  and building and inserting keep the node routed and its places in order within each hash
  (`buildAChampNode_indexes`, `insertAChampIndex_indexes`).
-/
import Terlan.PersistentMap.AChamp

namespace Terlan.PersistentMap

open Terlan.Lib.HashTrie List

variable {K V : Type}

/-! ## Children -/

/-- The occupied slots among direct ones, the first of which has a given number. -/
def occupiedFrom : Nat → List (Option AChampNode) → List (Nat × AChampNode)
  | _, [] => []
  | slot, none :: rest => occupiedFrom (slot + 1) rest
  | slot, some child :: rest => (slot, child) :: occupiedFrom (slot + 1) rest

theorem collectSparse_eq (children : List (Nat × AChampNode)) :
    collectSparse children = children.flatMap fun child => collectAChampIndices child.2 := by
  induction children with
  | nil => rfl
  | cons child rest ih => rw [collectSparse, ih, flatMap_cons]

theorem collectDense_eq (children : List (Option AChampNode)) :
    ∀ slot, collectDense children = collectSparse (occupiedFrom slot children) := by
  induction children with
  | nil => exact fun _ => rfl
  | cons child rest ih =>
    intro slot
    cases child with
    | none => rw [collectDense, occupiedFrom, ih (slot + 1)]
    | some child => rw [collectDense, occupiedFrom, collectSparse, ih (slot + 1)]

theorem occupiedFrom_slots {children : List (Option AChampNode)} :
    ∀ {first : Nat} {child : Nat × AChampNode}, child ∈ occupiedFrom first children →
      first ≤ child.1 ∧ child.1 < first + children.length := by
  induction children with
  | nil => exact fun mem => absurd mem not_mem_nil
  | cons head rest ih =>
    intro first child mem
    have later : child ∈ occupiedFrom (first + 1) rest →
        first ≤ child.1 ∧ child.1 < first + (head :: rest).length := by
      intro mem
      obtain ⟨low, high⟩ := ih mem
      rw [length_cons]
      omega
    cases head with
    | none => exact later mem
    | some node =>
      rcases mem_cons.mp mem with rfl | mem
      · rw [length_cons]
        exact ⟨Nat.le_refl _, by dsimp only; omega⟩
      · exact later mem

/-- The children of a node at a level: one a slot, and each with places of its slot only. -/
structure Slotted (hashAt : Nat → UInt64) (level : Nat) (children : List (Nat × AChampNode)) :
    Prop where
  distinct : (children.map Prod.fst).Nodup
  small : ∀ child ∈ children, child.1 < champBranchFactor
  slots : ∀ child ∈ children, ∀ index ∈ collectAChampIndices child.2,
    hashSlot (hashAt index) level = child.1

/-- Every place below a node has the hash that leads to it. -/
inductive Routed (hashAt : Nat → UInt64) : Nat → AChampNode → Prop
  | leafBlock (level : Nat) (indices : List Nat) : Routed hashAt level (.leafBlock indices)
  | collisionNode (level : Nat) (indices : List Nat) : Routed hashAt level (.collisionNode indices)
  | sparseNode {level : Nat} {children : List (Nat × AChampNode)}
      (slotted : Slotted hashAt level children)
      (below : ∀ child ∈ children, Routed hashAt (level + 1) child.2) :
      Routed hashAt level (.sparseNode children)
  | denseNode {level : Nat} {children : List (Option AChampNode)}
      (direct : children.length = champBranchFactor)
      (slotted : Slotted hashAt level (occupiedFrom 0 children))
      (below : ∀ child ∈ occupiedFrom 0 children, Routed hashAt (level + 1) child.2) :
      Routed hashAt level (.denseNode children)
  | compressedPathNode {level : Nat} {slots : List Nat} {child : AChampNode}
      (path : ∀ index ∈ collectAChampIndices child,
        prefixMatches slots (hashAt index) level = true)
      (below : Routed hashAt (level + slots.length) child) :
      Routed hashAt level (.compressedPathNode slots child)

/-- A routed node that leads to some places. -/
def Indexes (hashAt : Nat → UInt64) (level : Nat) (node : AChampNode) (indices : List Nat) : Prop :=
  Routed hashAt level node ∧ Alike hashAt (collectAChampIndices node) indices

namespace Slotted

variable {hashAt : Nat → UInt64} {level : Nat} {children : List (Nat × AChampNode)}

section

variable (h : Slotted hashAt level children)
include h

theorem perm {children' : List (Nat × AChampNode)}
    (same : children.Perm children') : Slotted hashAt level children' where
  distinct := (same.map Prod.fst).nodup_iff.mp h.distinct
  small child mem := h.small child (same.mem_iff.mpr mem)
  slots child mem := h.slots child (same.mem_iff.mpr mem)

/-- Only the child of the slot has places of a hash. -/
theorem filter_collect {child : Nat × AChampNode} (mem : child ∈ children) {wanted : Nat → Bool}
    (slot : ∀ index ∈ collectSparse children, wanted index = true →
      hashSlot (hashAt index) level = child.1) :
    (collectSparse children).filter wanted = (collectAChampIndices child.2).filter wanted := by
  rw [collectSparse_eq, filter_flatMap]
  refine flatMap_single (fun child : Nat × AChampNode =>
    (collectAChampIndices child.2).filter wanted) child (List.Nodup.of_map _ h.distinct) mem
      fun other memOther different => ?_
  refine filter_eq_nil_iff.mpr fun index memIndex hit => different ?_
  refine inj_on_of_nodup_map h.distinct memOther mem ?_
  rw [← h.slots other memOther index memIndex]
  refine slot index ?_ hit
  rw [collectSparse_eq]
  exact mem_flatMap.mpr ⟨other, memOther, memIndex⟩

theorem filter_collect_none {wanted : Nat → Bool} {slot : Nat}
    (missing : ∀ child ∈ children, child.1 ≠ slot)
    (hashed : ∀ index ∈ collectSparse children, wanted index = true →
      hashSlot (hashAt index) level = slot) : (collectSparse children).filter wanted = [] := by
  refine filter_eq_nil_iff.mpr fun index mem hit => ?_
  have slotIs := hashed index mem hit
  rw [collectSparse_eq] at mem
  obtain ⟨child, memChild, memIndex⟩ := mem_flatMap.mp mem
  exact missing child memChild (by rw [← slotIs, h.slots child memChild index memIndex])

/-- The order of the children does not matter. -/
theorem alike_of_perm {children' : List (Nat × AChampNode)}
    (same : children.Perm children') :
    Alike hashAt (collectSparse children) (collectSparse children') := by
  intro value
  have h' := h.perm same
  have hashed : ∀ indices : List Nat, ∀ index ∈ indices,
      decide (hashAt index = value) = true → hashSlot (hashAt index) level = hashSlot value level :=
    fun _ _ _ hit => by rw [of_decide_eq_true hit]
  by_cases present : ∃ child ∈ children, child.1 = hashSlot value level
  · obtain ⟨child, mem, slot⟩ := present
    rw [h.filter_collect mem (by rw [slot]; exact hashed _),
      h'.filter_collect (same.mem_iff.mp mem) (by rw [slot]; exact hashed _)]
  · have missing : ∀ child ∈ children, child.1 ≠ hashSlot value level :=
      fun child mem slot => present ⟨child, mem, slot⟩
    rw [h.filter_collect_none missing (hashed _), h'.filter_collect_none
      (fun child mem => missing child (same.mem_iff.mpr mem)) (hashed _)]

end

end Slotted

/-! ## Lookup -/

section Lookup

variable {α : Type} [BEq K]

/-- The place holds an entry of the key. -/
def holds (base : List (K × V)) (key : K) (index : Nat) : Bool :=
  base[index]?.any (·.1 == key)

variable (base : List (K × V))

theorem lookupLeaf_eq (key : K) (found : Nat → K × V → α) (indices : List Nat) :
    lookupLeaf base key found indices =
      (indices.find? (holds base key)).bind fun index => base[index]?.map (found index) := by
  unfold lookupLeaf
  induction indices with
  | nil => rfl
  | cons index rest ih =>
    rw [findSome?_cons, find?_cons, ih]
    unfold holds
    cases here : base[index]? with
    | none => rfl
    | some entry =>
      dsimp only [Option.any_some]
      cases same : entry.1 == key with
      | false => rfl
      | true => simp [here]

theorem lookupSparse_eq (key : K) (hash : UInt64) (found : Nat → K × V → α)
    (slot : Nat) (children : List (Nat × AChampNode)) (level : Nat) :
    lookupSparse base key hash found slot children level =
      (children.find? (·.1 = slot)).bind fun child =>
        lookupAChamp base key hash found child.2 level := by
  induction children with
  | nil => rfl
  | cons child rest ih =>
    rw [lookupSparse, find?_cons, ih]
    by_cases same : child.1 = slot
    · rw [if_pos same, decide_eq_true same]
      rfl
    · rw [if_neg same, decide_eq_false same]

theorem lookupDense_eq (key : K) (hash : UInt64) (found : Nat → K × V → α)
    (children : List (Option AChampNode)) (level : Nat) :
    ∀ first slot, lookupDense base key hash found slot children level =
      lookupSparse base key hash found (first + slot) (occupiedFrom first children) level := by
  induction children with
  | nil =>
    intro first slot
    cases slot <;> rfl
  | cons child rest ih =>
    intro first slot
    have beyond : lookupSparse base key hash found first (occupiedFrom (first + 1) rest) level =
        none := by
      rw [lookupSparse_eq, find?_eq_none.mpr fun child mem hit => ?_]
      · rfl
      · have low := (occupiedFrom_slots mem).1
        have same := of_decide_eq_true hit
        omega
    cases slot with
    | zero =>
      cases child with
      | none => rw [lookupDense, occupiedFrom, Nat.add_zero, beyond]
      | some child => rw [lookupDense, occupiedFrom, Nat.add_zero, lookupSparse, if_pos rfl]
    | succ slot =>
      have next : first + (slot + 1) = first + 1 + slot := by omega
      cases child with
      | none => rw [lookupDense, occupiedFrom, next, ih]
      | some child =>
        rw [lookupDense, occupiedFrom, lookupSparse, if_neg (by omega), next, ih]

/-- Looking for a key among the children of a slot finds what a search of all places finds. -/
theorem Slotted.lookupSparse_eq {hashAt : Nat → UInt64} {level : Nat}
    {children : List (Nat × AChampNode)} (h : Slotted hashAt level children)
    {base : List (K × V)} {key : K} {hash : UInt64} {found : Nat → K × V → α}
    (hashed : ∀ index ∈ collectSparse children, holds base key index = true → hashAt index = hash)
    (below : ∀ child ∈ children, lookupAChamp base key hash found child.2 (level + 1) =
      ((collectAChampIndices child.2).find? (holds base key)).bind fun index =>
        base[index]?.map (found index)) :
    lookupSparse base key hash found (hashSlot hash level) children (level + 1) =
      ((collectSparse children).find? (holds base key)).bind fun index =>
        base[index]?.map (found index) := by
  have slot : ∀ index ∈ collectSparse children, holds base key index = true →
      hashSlot (hashAt index) level = hashSlot hash level :=
    fun index mem hit => by rw [hashed index mem hit]
  rw [PersistentMap.lookupSparse_eq]
  cases search : children.find? (·.1 = hashSlot hash level) with
  | none =>
    have missing : ∀ child ∈ children, child.1 ≠ hashSlot hash level := by
      intro child mem same
      exact find?_eq_none.mp search child mem (decide_eq_true same)
    rw [← head?_filter, h.filter_collect_none missing slot]
    rfl
  | some child =>
    have mem := mem_of_find?_eq_some search
    have hit := find?_some search
    have same : child.1 = hashSlot hash level := of_decide_eq_true hit
    rw [Option.bind_some, below child mem, ← head?_filter, ← head?_filter,
      h.filter_collect mem (by rw [same]; exact slot)]

/-- A lookup in a routed node is a search of its places. -/
theorem lookupAChamp_eq {hashAt : Nat → UInt64} {level : Nat} {node : AChampNode}
    (routed : Routed hashAt level node) {base : List (K × V)} {key : K} {hash : UInt64}
    (found : Nat → K × V → α)
    (hashed : ∀ index ∈ collectAChampIndices node, holds base key index = true →
      hashAt index = hash) :
    lookupAChamp base key hash found node level =
      ((collectAChampIndices node).find? (holds base key)).bind fun index =>
        base[index]?.map (found index) := by
  induction routed with
  | leafBlock level indices | collisionNode level indices =>
    exact lookupLeaf_eq base key found indices
  | sparseNode slotted below ih =>
    refine slotted.lookupSparse_eq hashed fun child mem => ih child mem fun index memIndex =>
      hashed index ?_
    rw [collectAChampIndices, collectSparse_eq]
    exact mem_flatMap.mpr ⟨child, mem, memIndex⟩
  | @denseNode level children direct slotted below ih =>
    rw [collectAChampIndices, collectDense_eq children 0] at hashed ⊢
    have sparse := lookupDense_eq base key hash found children (level + 1) 0 (hashSlot hash level)
    rw [lookupAChamp, sparse, Nat.zero_add]
    refine slotted.lookupSparse_eq hashed fun child mem => ih child mem fun index memIndex =>
      hashed index ?_
    rw [collectSparse_eq]
    exact mem_flatMap.mpr ⟨child, mem, memIndex⟩
  | @compressedPathNode level slots child path below ih =>
    rw [lookupAChamp]
    split
    next => exact ih hashed
    next astray =>
      rw [collectAChampIndices, find?_eq_none.mpr fun index mem hit => ?_]
      · rfl
      · have follows := path index mem
        rw [hashed index mem hit] at follows
        exact astray follows

end Lookup

/-! ## Building -/

theorem occupiedFrom_set (child : AChampNode) {children : List (Option AChampNode)} {slot : Nat} :
    ∀ first : Nat, children[slot]? = some none →
      (occupiedFrom first (children.set slot (some child))).Perm
        ((first + slot, child) :: occupiedFrom first children) := by
  induction children generalizing slot with
  | nil => exact fun _ empty => by cases empty
  | cons head rest ih =>
    intro first empty
    cases slot with
    | zero =>
      rw [getElem?_cons_zero, Option.some.injEq] at empty
      rw [empty, set_cons_zero, Nat.add_zero]
      exact .refl _
    | succ slot =>
      rw [getElem?_cons_succ] at empty
      have below := ih (first + 1) empty
      rw [Nat.add_right_comm, Nat.add_assoc] at below
      rw [set_cons_succ]
      cases head with
      | none => exact below
      | some node => exact (below.cons _).trans (.swap _ _ _)

theorem occupiedFrom_replicate (count : Nat) :
    ∀ first, occupiedFrom first (List.replicate count none) = [] := by
  induction count with
  | zero => exact fun _ => rfl
  | succ count ih => exact fun first => ih (first + 1)

variable {children : List (Nat × AChampNode)}

/-- Putting children into free direct slots loses none. -/
theorem fillSlots_perm :
    ∀ {slots : List (Option AChampNode)}, (children.map Prod.fst).Nodup →
      (∀ child ∈ children, slots[child.1]? = some none) →
        let filled := children.foldl (fun slots child => slots.set child.1 (some child.2)) slots
        filled.length = slots.length ∧
          (occupiedFrom 0 filled).Perm (children ++ occupiedFrom 0 slots) := by
  induction children with
  | nil => exact fun _ _ => ⟨rfl, .refl _⟩
  | cons child rest ih =>
    intro slots distinct free
    obtain ⟨fresh, distinct⟩ := nodup_cons.mp distinct
    have free' : ∀ other ∈ rest, (slots.set child.1 (some child.2))[other.1]? = some none := by
      intro other mem
      have different : child.1 ≠ other.1 := fun same => fresh (same ▸ mem_map_of_mem mem)
      rw [getElem?_set_ne different]
      exact free other (mem_cons_of_mem _ mem)
    obtain ⟨direct, filled⟩ := ih distinct free'
    rw [length_set] at direct
    refine ⟨direct, filled.trans ?_⟩
    have placed := occupiedFrom_set child.2 0 (free child mem_cons_self)
    rw [Nat.zero_add] at placed
    exact (placed.append_left rest).trans perm_middle

theorem denseSlots_perm (distinct : (children.map Prod.fst).Nodup)
    (small : ∀ child ∈ children, child.1 < champBranchFactor) :
    (denseSlots children).length = champBranchFactor ∧
      (occupiedFrom 0 (denseSlots children)).Perm children := by
  obtain ⟨direct, filled⟩ := @fillSlots_perm children (List.replicate champBranchFactor none)
    distinct fun child mem => by rw [getElem?_replicate, if_pos (small child mem)]
  rw [occupiedFrom_replicate, append_nil] at filled
  rw [length_replicate] at direct
  exact ⟨direct, filled⟩

variable {hashAt : Nat → UInt64} {level : Nat}

theorem Slotted.denseNode (h : Slotted hashAt level children)
    (below : ∀ child ∈ children, Routed hashAt (level + 1) child.2) :
    Indexes hashAt level (.denseNode (denseSlots children)) (collectSparse children) := by
  obtain ⟨direct, same⟩ := denseSlots_perm h.distinct h.small
  refine ⟨.denseNode direct (h.perm same.symm) fun child mem =>
    below child (same.mem_iff.mp mem), ?_⟩
  rw [collectAChampIndices, collectDense_eq _ 0]
  exact (h.alike_of_perm same.symm).symm

theorem prefixMatches_iff {slots : List Nat} {hash : UInt64} :
    prefixMatches slots hash level = true ↔
      ∀ offset slot, slots[offset]? = some slot → hashSlot hash (level + offset) = slot := by
  unfold prefixMatches
  rw [all_eq_true]
  constructor
  · intro all offset slot found
    exact of_decide_eq_true (all (slot, offset) (mem_zipIdx_iff_getElem?.mpr found))
  · rintro all ⟨slot, offset⟩ mem
    exact decide_eq_true (all offset slot (mem_zipIdx_iff_getElem?.mp mem))

/-- The children of a node that is built from groups. -/
def buildChildren (entries : List HashedIndex) (level : Nat) : List (Nat × AChampNode) :=
  (groupEntries entries level).map fun group => (group.1, buildAChampNode group.2 (level + 1))

theorem buildAChampNode_groups {entries : List HashedIndex}
    (long : ¬ entries.length ≤ leafBlockLimit) (several : ¬ oneHash entries = true)
    (unshared : ¬ compressedPathMinSkippedLevels ≤ (sharedSlotPrefix entries level).length) :
    buildAChampNode entries level = .denseNode (denseSlots (buildChildren entries level)) ∨
      buildAChampNode entries level = .sparseNode (buildChildren entries level) := by
  rw [buildAChampNode, if_neg long, if_neg several, if_neg unshared]
  have plain := attach_map_val (l := groupEntries entries level)
    (f := fun group => (group.1, buildAChampNode group.2 (level + 1)))
  dsimp only
  rw [plain]
  split
  next => exact .inl rfl
  next => exact .inr rfl

theorem buildChildren_slots (entries : List HashedIndex) (level : Nat) :
    ((buildChildren entries level).map Prod.fst).Nodup ∧
      ∀ child ∈ buildChildren entries level, child.1 < champBranchFactor := by
  constructor
  · unfold buildChildren
    rw [map_map]
    exact (groupBySlot_ascending _ _ entries).imp Nat.ne_of_lt
  · intro child mem
    obtain ⟨group, memGroup, rfl⟩ := mem_map.mp mem
    exact (mem_groupBySlot.mp memGroup).1

theorem buildChildren_indexes {entries : List HashedIndex}
    (hashed : ∀ entry ∈ entries, hashAt entry.index = entry.hash)
    (built : ∀ group ∈ groupEntries entries level,
      Indexes hashAt (level + 1) (buildAChampNode group.2 (level + 1)) (group.2.map (·.index))) :
    Slotted hashAt level (buildChildren entries level) ∧
      (∀ child ∈ buildChildren entries level, Routed hashAt (level + 1) child.2) ∧
        Alike hashAt (collectSparse (buildChildren entries level)) (entries.map (·.index)) := by
  obtain ⟨distinct, small⟩ := buildChildren_slots entries level
  refine ⟨⟨distinct, small, ?_⟩, ?_, ?_⟩
  · intro child mem index memIndex
    obtain ⟨group, memGroup, rfl⟩ := mem_map.mp mem
    have place := ((built group memGroup).2.mem_iff index).mp memIndex
    obtain ⟨entry, memEntry, rfl⟩ := mem_map.mp place
    rw [(mem_groupBySlot.mp memGroup).2.1, mem_filter] at memEntry
    rw [hashed entry memEntry.1]
    exact of_decide_eq_true memEntry.2
  · intro child mem
    obtain ⟨group, memGroup, rfl⟩ := mem_map.mp mem
    exact (built group memGroup).1
  · rw [collectSparse_eq]
    unfold buildChildren
    rw [flatMap_map]
    have apart : Alike hashAt ((groupEntries entries level).flatMap fun group =>
        group.2.map (·.index)) (entries.map (·.index)) := by
      rw [← map_flatMap]
      refine Alike.map (groupBySlot_alike (fun hash => hashSlot_lt hash level) entries) ?_
      intro entry mem
      exact hashed entry ((groupBySlot_alike (fun hash => hashSlot_lt hash level)
        entries).mem_iff entry |>.mp mem)
    exact (Alike.flatMap fun group mem => (built group mem).2).trans apart

/-- Building a node loses no place and leads every hash to its places. -/
theorem buildAChampNode_indexes (entries : List HashedIndex) (level : Nat)
    (hashed : ∀ entry ∈ entries, hashAt entry.index = entry.hash) :
    Indexes hashAt level (buildAChampNode entries level) (entries.map (·.index)) := by
  have grouped : ∀ (entries : List HashedIndex) (level : Nat),
      ¬ entries.length ≤ leafBlockLimit → ¬ oneHash entries = true →
      ¬ compressedPathMinSkippedLevels ≤ (sharedSlotPrefix entries level).length →
      (∀ group : { group // group ∈ groupEntries entries level },
        (∀ entry ∈ group.1.2, hashAt entry.index = entry.hash) →
          Indexes hashAt (level + 1) (buildAChampNode group.1.2 (level + 1))
            (group.1.2.map (·.index))) →
      (∀ entry ∈ entries, hashAt entry.index = entry.hash) →
        Indexes hashAt level (buildAChampNode entries level) (entries.map (·.index)) := by
    intro entries level long several unshared ih hashed
    obtain ⟨slotted, below, places⟩ := buildChildren_indexes hashed fun group mem =>
      ih ⟨group, mem⟩ fun entry memEntry => by
        rw [(mem_groupBySlot.mp mem).2.1] at memEntry
        exact hashed entry (mem_filter.mp memEntry).1
    rcases buildAChampNode_groups long several unshared with dense | sparse
    · rw [dense]
      obtain ⟨routed, same⟩ := slotted.denseNode below
      exact ⟨routed, same.trans places⟩
    · rw [sparse]
      exact ⟨.sparseNode slotted below, places⟩
  induction entries, level using buildAChampNode.induct with
  | case1 entries level short =>
    rw [buildAChampNode, if_pos short]
    exact ⟨.leafBlock _ _, .refl _⟩
  | case2 entries level long one =>
    rw [buildAChampNode, if_neg long, if_pos one]
    exact ⟨.collisionNode _ _, .refl _⟩
  | case3 entries level long several shared ih =>
    rw [buildAChampNode, if_neg long, if_neg several, if_pos shared]
    obtain ⟨routed, places⟩ := ih hashed
    refine ⟨.compressedPathNode (fun index mem => ?_) routed, places⟩
    obtain ⟨entry, memEntry, rfl⟩ := mem_map.mp ((places.mem_iff index).mp mem)
    rw [hashed entry memEntry]
    refine prefixMatches_iff.mpr fun offset slot found => ?_
    exact sharedPrefix_shared _ _ _ _ _ _ found entry memEntry
  | case4 entries level long several unshared children layout ih
  | case5 entries level long several unshared children layout ih =>
    exact grouped entries level long several unshared ih hashed

/-! ## Insertion -/

section Insertion

variable [Hashable K] {hashAt : Nat → UInt64} {base : List (K × V)}

/-- A place holds a key of its hash. -/
def Stored (hashAt : Nat → UInt64) (base : List (K × V)) (index : Nat) : Prop :=
  base[index]?.map (fun entry => hash entry.1) = some (hashAt index)

theorem rebuildNodeFromIndices_eq {indices : List Nat} (level : Nat)
    (stored : ∀ index ∈ indices, Stored hashAt base index) :
    rebuildNodeFromIndices base indices level =
      buildAChampNode (indices.map fun index => ⟨hashAt index, index⟩) level := by
  unfold rebuildNodeFromIndices
  congr 1
  induction indices with
  | nil => rfl
  | cons index rest ih =>
    obtain ⟨entry, found, same⟩ := Option.map_eq_some_iff.mp (stored index mem_cons_self)
    rw [filterMap_cons, found, map_cons, Option.map_some, same,
      ih fun other mem => stored other (mem_cons_of_mem _ mem)]

theorem rebuildNodeFromIndices_indexes {indices : List Nat} (level : Nat)
    (stored : ∀ index ∈ indices, Stored hashAt base index) :
    Indexes hashAt level (rebuildNodeFromIndices base indices level) indices := by
  rw [rebuildNodeFromIndices_eq level stored]
  have built := @buildAChampNode_indexes hashAt
    (indices.map fun index => ⟨hashAt index, index⟩) level fun entry mem => by
      obtain ⟨index, -, rfl⟩ := mem_map.mp mem
      rfl
  rw [map_map] at built
  have ident : ((fun entry : HashedIndex => entry.index) ∘ fun index => ⟨hashAt index, index⟩) =
      id := rfl
  rw [ident, List.map_id] at built
  exact built

/-- Children after an insertion: one of them has grown, or there is one more. -/
inductive Grown (base : List (K × V)) (entry : HashedIndex) (slot level : Nat)
    (before after : List (Nat × AChampNode)) : Prop
  | within (others : List (Nat × AChampNode)) (child : AChampNode)
      (old : before.Perm (others ++ [(slot, child)]))
      (new : after.Perm (others ++ [(slot, insertAChampIndex base entry child level)]))
  | added (missing : ∀ child ∈ before, child.1 ≠ slot)
      (new : after.Perm (before ++ [(slot, .leafBlock [entry.index])]))

theorem insertSparse_grown (base : List (K × V)) (entry : HashedIndex) (slot level : Nat)
    (children : List (Nat × AChampNode)) :
    match insertSparse base entry slot children level with
    | some after => Grown base entry slot level children after
    | none => ∀ child ∈ children, child.1 ≠ slot := by
  induction children with
  | nil => exact fun _ mem => absurd mem not_mem_nil
  | cons child rest ih =>
    rw [insertSparse]
    by_cases same : child.1 = slot
    · rw [if_pos same, ← same]
      exact .within rest child.2 (perm_append_singleton _ _).symm
        (perm_append_singleton _ _).symm
    rw [if_neg same]
    cases inner : insertSparse base entry slot rest level with
    | none =>
      rw [inner] at ih
      exact forall_mem_cons.mpr ⟨same, ih⟩
    | some after =>
      rw [inner] at ih
      cases ih with
      | within others node old new =>
        exact .within (child :: others) node (old.cons child) (new.cons child)
      | added missing new =>
        exact .added (forall_mem_cons.mpr ⟨same, missing⟩) (new.cons child)

theorem insertDense_grown (base : List (K × V)) (entry : HashedIndex) (level : Nat)
    {children : List (Option AChampNode)} : ∀ (first : Nat) {slot : Nat}, slot < children.length →
      Grown base entry (first + slot) level (occupiedFrom first children)
        (occupiedFrom first (insertDense base entry slot children level)) := by
  induction children with
  | nil => exact fun _ _ inside => absurd inside (Nat.not_lt_zero _)
  | cons child rest ih =>
    intro first slot inside
    cases slot with
    | zero =>
      rw [Nat.add_zero]
      cases child with
      | none =>
        refine .added (fun child mem => ?_) (perm_append_singleton _ _).symm
        have low := (occupiedFrom_slots (show child ∈ occupiedFrom (first + 1) rest from mem)).1
        omega
      | some child =>
        exact .within _ child (perm_append_singleton _ _).symm
          (perm_append_singleton _ _).symm
    | succ slot =>
      have below := ih (first + 1) (Nat.lt_of_succ_lt_succ inside)
      rw [Nat.add_right_comm, Nat.add_assoc] at below
      cases child with
      | none => exact below
      | some child =>
        cases below with
        | within others node old new =>
          exact .within ((first, child) :: others) node (old.cons _) (new.cons _)
        | added missing new =>
          refine .added (forall_mem_cons.mpr ⟨?_, missing⟩) (new.cons (first, child))
          dsimp only
          omega

variable {entry : HashedIndex}

theorem insertDense_length {level : Nat} {children : List (Option AChampNode)} :
    ∀ slot, (insertDense base entry slot children level).length = children.length := by
  induction children with
  | nil => intro slot; cases slot <;> rfl
  | cons child rest ih =>
    intro slot
    cases slot with
    | zero => cases child <;> rfl
    | succ slot => rw [insertDense, length_cons, length_cons, ih]

theorem collectSparse_append (left right : List (Nat × AChampNode)) :
    collectSparse (left ++ right) = collectSparse left ++ collectSparse right := by
  rw [collectSparse_eq, collectSparse_eq, collectSparse_eq, flatMap_append]

theorem collectSparse_singleton (slot : Nat) (child : AChampNode) :
    collectSparse [(slot, child)] = collectAChampIndices child := append_nil _

/-- What the children are for survives an insertion. -/
theorem Slotted.grown {level : Nat} {before after : List (Nat × AChampNode)}
    (h : Slotted hashAt level before) (below : ∀ child ∈ before, Routed hashAt (level + 1) child.2)
    (own : hashAt entry.index = entry.hash)
    (grown : Grown base entry (hashSlot entry.hash level) (level + 1) before after)
    (inserts : ∀ child ∈ before, Indexes hashAt (level + 1)
      (insertAChampIndex base entry child.2 (level + 1))
      (collectAChampIndices child.2 ++ [entry.index])) :
    Slotted hashAt level after ∧ (∀ child ∈ after, Routed hashAt (level + 1) child.2) ∧
      Alike hashAt (collectSparse after) (collectSparse before ++ [entry.index]) := by
  cases grown with
  | within others child old new =>
    have h' := h.perm old
    have mem : (hashSlot entry.hash level, child) ∈ before :=
      old.mem_iff.mpr (mem_append_right _ (mem_singleton.mpr rfl))
    obtain ⟨routed, places⟩ := inserts _ mem
    generalize insertAChampIndex base entry child (level + 1) = child' at new routed places
    have replaced : Slotted hashAt level (others ++ [(hashSlot entry.hash level, child')]) := by
      refine ⟨?_, ?_, ?_⟩
      · have distinct := h'.distinct
        rw [map_append] at distinct ⊢
        exact distinct
      · intro other memOther
        rcases mem_append.mp memOther with memOther | memOther
        · exact h'.small other (mem_append_left _ memOther)
        · rw [mem_singleton.mp memOther]
          exact hashSlot_lt _ _
      · intro other memOther index memIndex
        rcases mem_append.mp memOther with memOther | memOther
        · exact h'.slots other (mem_append_left _ memOther) index memIndex
        rw [mem_singleton.mp memOther] at memIndex ⊢
        rcases mem_append.mp ((places.mem_iff index).mp memIndex) with memOld | memNew
        · exact h.slots _ mem index memOld
        · rw [mem_singleton.mp memNew, own]
    refine ⟨replaced.perm new.symm, fun other memOther => ?_, ?_⟩
    · rcases mem_append.mp (new.mem_iff.mp memOther) with memOther | memOther
      · exact below other (old.mem_iff.mpr (mem_append_left _ memOther))
      · rw [mem_singleton.mp memOther]
        exact routed
    · refine (replaced.alike_of_perm new.symm).symm.trans ?_
      refine Alike.trans ?_ ((h'.alike_of_perm old.symm).append (.refl [entry.index]))
      rw [collectSparse_append, collectSparse_append, collectSparse_singleton,
        collectSparse_singleton, append_assoc]
      exact (Alike.refl _).append places
  | added missing new =>
    have added : Slotted hashAt level
        (before ++ [(hashSlot entry.hash level, .leafBlock [entry.index])]) := by
      refine ⟨?_, ?_, ?_⟩
      · rw [map_append]
        refine nodup_append.mpr ⟨h.distinct, nodup_singleton _, ?_⟩
        intro slot memSlot other memOther same
        obtain ⟨child, memChild, rfl⟩ := mem_map.mp memSlot
        exact missing child memChild (same.trans (mem_singleton.mp memOther))
      · intro other memOther
        rcases mem_append.mp memOther with memOther | memOther
        · exact h.small other memOther
        · rw [mem_singleton.mp memOther]
          exact hashSlot_lt _ _
      · intro other memOther index memIndex
        rcases mem_append.mp memOther with memOther | memOther
        · exact h.slots other memOther index memIndex
        · rw [mem_singleton.mp memOther] at memIndex ⊢
          rw [mem_singleton.mp memIndex, own]
    refine ⟨added.perm new.symm, fun other memOther => ?_, ?_⟩
    · rcases mem_append.mp (new.mem_iff.mp memOther) with memOther | memOther
      · exact below other memOther
      · rw [mem_singleton.mp memOther]
        exact .leafBlock _ _
    · refine (added.alike_of_perm new.symm).symm.trans ?_
      rw [collectSparse_append, collectSparse_singleton]
      exact .refl _

/-- Inserting adds one place. -/
theorem insertAChampIndex_indexes {level : Nat} {node : AChampNode}
    (routed : Routed hashAt level node) (own : hashAt entry.index = entry.hash)
    (stored : ∀ index ∈ collectAChampIndices node ++ [entry.index], Stored hashAt base index) :
    Indexes hashAt level (insertAChampIndex base entry node level)
      (collectAChampIndices node ++ [entry.index]) := by
  induction routed with
  | leafBlock level indices =>
    rw [insertAChampIndex]
    split
    next => exact rebuildNodeFromIndices_indexes level stored
    next => exact ⟨.leafBlock _ _, .refl _⟩
  | collisionNode level indices =>
    rw [insertAChampIndex]
    split
    next => exact ⟨.collisionNode _ _, .refl _⟩
    next => exact rebuildNodeFromIndices_indexes level stored
  | @sparseNode level children slotted below ih =>
    rw [collectAChampIndices] at stored ⊢
    have inserts : ∀ child ∈ children, Indexes hashAt (level + 1)
        (insertAChampIndex base entry child.2 (level + 1))
        (collectAChampIndices child.2 ++ [entry.index]) :=
      fun child mem => ih child mem fun index memIndex => stored index (by
        rcases mem_append.mp memIndex with memIndex | memIndex
        · refine mem_append_left _ ?_
          rw [collectSparse_eq]
          exact mem_flatMap.mpr ⟨child, mem, memIndex⟩
        · exact mem_append_right _ memIndex)
    have outcome := insertSparse_grown base entry (hashSlot entry.hash level) (level + 1) children
    rw [insertAChampIndex]
    cases inner : insertSparse base entry (hashSlot entry.hash level) children (level + 1) with
    | some after =>
      rw [inner] at outcome
      obtain ⟨slotted', below', places⟩ := slotted.grown below own outcome inserts
      exact ⟨.sparseNode slotted' below', places⟩
    | none =>
      rw [inner] at outcome
      dsimp only at outcome ⊢
      obtain ⟨slotted', below', places⟩ := slotted.grown below own
        (.added outcome (mergeSort_perm _ fun left right => left.1 ≤ right.1)) inserts
      split
      next =>
        obtain ⟨routed, same⟩ := slotted'.denseNode below'
        exact ⟨routed, same.trans places⟩
      next => exact ⟨.sparseNode slotted' below', places⟩
  | @denseNode level children direct slotted below ih =>
    rw [collectAChampIndices, collectDense_eq children 0] at stored ⊢
    have grown := insertDense_grown base entry (level + 1) 0
      (show hashSlot entry.hash level < children.length by rw [direct]; exact hashSlot_lt _ _)
    rw [Nat.zero_add] at grown
    obtain ⟨slotted', below', places⟩ := slotted.grown below own grown fun child mem =>
      ih child mem fun index memIndex => stored index (by
        rcases mem_append.mp memIndex with memIndex | memIndex
        · refine mem_append_left _ ?_
          rw [collectSparse_eq]
          exact mem_flatMap.mpr ⟨child, mem, memIndex⟩
        · exact mem_append_right _ memIndex)
    rw [insertAChampIndex]
    refine ⟨.denseNode (by rw [insertDense_length, direct]) slotted' below', ?_⟩
    rw [collectAChampIndices, collectDense_eq _ 0]
    exact places
  | @compressedPathNode level slots child path below ih =>
    rw [insertAChampIndex]
    split
    next follows =>
      obtain ⟨routed, places⟩ := ih stored
      refine ⟨.compressedPathNode (fun index mem => ?_) routed, places⟩
      rcases mem_append.mp ((places.mem_iff index).mp mem) with memOld | memNew
      · exact path index memOld
      · rw [mem_singleton.mp memNew, own]
        exact follows
    next => exact rebuildNodeFromIndices_indexes level stored

end Insertion

end Terlan.PersistentMap
