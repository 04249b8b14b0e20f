/-
  The map refines an association list in insertion order, as long as no update in place is
  hidden by a patch or overtakes one. `WellFormed` is what every map keeps; `applied_put` and
  `applied_push` say when an update of the base is an update of the patched entries.
-/
import Terlan.Lib.Replay
import Terlan.PersistentMap.AChampSpec
import Terlan.PersistentMap.MapValue

namespace Terlan.PersistentMap

open Terlan.Lib Terlan.Lib.HashTrie VmMapValue AssocList List
open AssocList (get? put erase)

variable {K V : Type}

/-! ## Flat entries -/

section Entries

variable [BEq K]

theorem insertOrReplaceEntries_eq (entries : List (K × V)) (key : K) (value : V) :
    insertOrReplaceEntries entries key value = put entries key value := by
  unfold insertOrReplaceEntries
  induction entries with
  | nil => rfl
  | cons entry rest ih =>
    rw [findIdx?_cons, put_cons, ← ih]
    cases entry.1 == key with
    | true => rfl
    | false => cases rest.findIdx? (·.1 == key) <;> rfl

theorem insertOptionalPatch_eq (entries : List (K × V)) (key : K) (value : Option V) :
    insertOptionalPatch entries key value =
      match value with
      | some value => put entries key value
      | none => erase entries key := by
  cases value with
  | none => rfl
  | some value => exact insertOrReplaceEntries_eq entries key value

theorem find?_range_holds (base : List (K × V)) (key : K) :
    (List.range base.length).find? (holds base key) = base.findIdx? (·.1 == key) := by
  have at_place : ∀ index (inside : index < base.length),
      holds base key index = (base[index].1 == key) := by
    intro index inside
    unfold holds
    rw [getElem?_eq_getElem inside]
    rfl
  refine Option.ext fun index => ?_
  rw [find?_range_eq_some, findIdx?_eq_some_iff_getElem, mem_range]
  constructor
  · rintro ⟨hit, inside, before⟩
    refine ⟨inside, by rw [← at_place index inside]; exact hit, fun earlier less => ?_⟩
    have missed := before earlier less
    rw [at_place earlier (less.trans inside)] at missed
    simpa using missed
  · rintro ⟨inside, hit, before⟩
    refine ⟨by rw [at_place index inside]; exact hit, inside, fun earlier less => ?_⟩
    rw [at_place earlier (less.trans inside)]
    simpa using before earlier less

theorem findIdx?_isSome (base : List (K × V)) (key : K) :
    (base.findIdx? (·.1 == key)).isSome = (get? base key).isSome := by
  unfold get?
  rw [Option.isSome_map, List.findIdx?_isSome, isSome_find?]

/-! ## Patches -/

/-- The entries of a base under a chain of patches. -/
def applied (base : List (K × V)) : List (MapPatch K V) → List (K × V)
  | [] => base
  | patch :: older => insertOptionalPatch (applied base older) patch.key patch.value

/-- No patch of a chain removes the key. -/
def survives (patches : List (MapPatch K V)) (key : K) : Bool :=
  patches.all fun patch => !(patch.value.isNone && key == patch.key)

/-- Patches put an entry of the map behind those of its base. -/
def Appends (base : List (K × V)) (patches : List (MapPatch K V)) : Prop :=
  (applied base patches).length ≠ (base.filter fun entry => survives patches entry.1).length

theorem survives_cons (patch : MapPatch K V) (older : List (MapPatch K V)) (key : K) :
    survives (patch :: older) key =
      (!(patch.value.isNone && key == patch.key) && survives older key) := rfl

theorem lookupPatch_cons (patch : MapPatch K V) (older : List (MapPatch K V)) (key : K) :
    lookupPatch (patch :: older) key =
      if patch.key == key then some patch.value else lookupPatch older key := by
  unfold lookupPatch
  rw [find?_cons]
  cases patch.key == key <;> rfl

theorem toEntries_indexed [Hashable K] (base : List (K × V)) (root : AChampNode)
    (patches : List (MapPatch K V)) (tombstoneHashes : Std.ExtTreeSet UInt64) (len : Nat) :
    (indexed base root patches tombstoneHashes len).toEntries = applied base patches := by
  rw [toEntries, foldl_reverse]
  induction patches with
  | nil => rfl
  | cons patch older ih => rw [foldr_cons, ih, applied]

variable [PartialEquivBEq K]

/-- The newest patch of a key decides, and the base where there is none. -/
theorem get?_applied (base : List (K × V)) (patches : List (MapPatch K V)) (key : K) :
    get? (applied base patches) key = (lookupPatch patches key).getD (get? base key) := by
  induction patches with
  | nil => rfl
  | cons patch older ih =>
    rw [applied, lookupPatch_cons, insertOptionalPatch_eq]
    cases value : patch.value with
    | none =>
      dsimp only
      rw [AssocList.get?_erase, ih]
      split <;> rfl
    | some new =>
      dsimp only
      rw [AssocList.get?_put, ih]
      split <;> rfl

/-- A patched key is not changed by what its base holds; another one is. -/
theorem applied_put {base : List (K × V)} {patches : List (MapPatch K V)} {key : K} (value : V)
    (unmentioned : lookupPatch patches key = none) (present : (get? base key).isSome) :
    applied (put base key value) patches = put (applied base patches) key value := by
  induction patches with
  | nil => rfl
  | cons patch older ih =>
    rw [lookupPatch_cons] at unmentioned
    cases other : patch.key == key with
    | true => rw [other] at unmentioned; cases unmentioned
    | false =>
      rw [other, if_neg Bool.false_ne_true] at unmentioned
      rw [applied, applied, ih unmentioned, insertOptionalPatch_eq, insertOptionalPatch_eq]
      cases patch.value with
      | none => exact erase_put_comm value other
      | some new =>
        refine put_put_comm value new ?_ other
        rw [get?_applied, unmentioned]
        exact present

/-- Patches leave an entry that they do not mention where it is: behind what is left of the
base before it, and before what they append. -/
theorem applied_append {entry : K × V} {patches : List (MapPatch K V)}
    (unmentioned : lookupPatch patches entry.1 = none) (base : List (K × V)) :
    ∃ front back, applied base patches = front ++ back ∧
      applied (base ++ [entry]) patches = front ++ entry :: back ∧
        front.map Prod.fst = (base.map Prod.fst).filter (survives patches) := by
  induction patches with
  | nil =>
    refine ⟨base, [], (append_nil _).symm, rfl, ?_⟩
    exact (filter_eq_self.mpr fun _ _ => rfl).symm
  | cons patch older ih =>
    rw [lookupPatch_cons] at unmentioned
    cases other : patch.key == entry.1 with
    | true => rw [other] at unmentioned; cases unmentioned
    | false =>
      rw [other, if_neg Bool.false_ne_true] at unmentioned
      obtain ⟨front, back, whole, extended, kept⟩ := ih unmentioned
      have different : (entry.1 == patch.key) = false := BEq.symm_false other
      rw [applied, applied, whole, extended, insertOptionalPatch_eq, insertOptionalPatch_eq]
      cases value : patch.value with
      | none =>
        refine ⟨erase front patch.key, erase back patch.key, erase_append _ _ _, ?_, ?_⟩
        · dsimp only
          rw [AssocList.erase_append, AssocList.erase_cons, different]
          rfl
        · have keys : (erase front patch.key).map Prod.fst =
              (front.map Prod.fst).filter fun key => !(key == patch.key) :=
            (filter_map (f := Prod.fst) (p := fun key => !(key == patch.key))).symm
          rw [keys, kept, filter_filter]
          refine filter_congr fun key _ => ?_
          rw [survives_cons, value]
          rfl
      | some new =>
        have same : survives (patch :: older) = survives older := by
          funext key
          rw [survives_cons, value]
          rfl
        dsimp only
        rw [put_append, put_append, same]
        split
        next inside =>
          refine ⟨put front patch.key new, back, rfl, rfl, ?_⟩
          rw [map_fst_put, if_pos inside, append_nil]
          exact kept
        next outside =>
          refine ⟨front, put back patch.key new, rfl, ?_, kept⟩
          rw [put_cons, different, if_neg Bool.false_ne_true]

/-- An entry that is added to the base is added to the map, if no patch appends one. -/
theorem applied_push {base : List (K × V)} {patches : List (MapPatch K V)} {key : K} (value : V)
    (unmentioned : lookupPatch patches key = none) (absent : get? base key = none)
    (plain : ¬ Appends base patches) :
    applied (base ++ [(key, value)]) patches = put (applied base patches) key value := by
  obtain ⟨front, back, whole, extended, kept⟩ :=
    @applied_append K V _ _ (key, value) patches unmentioned base
  have nothing : back = [] := by
    have length := not_not.mp plain
    have count := congrArg List.length kept
    rw [length_map, filter_map, length_map] at count
    rw [whole, length_append, count] at length
    refine eq_nil_of_length_eq_zero ?_
    have same : (base.filter (survives patches ∘ Prod.fst)).length =
        (base.filter fun entry => survives patches entry.1).length := rfl
    omega
  have fresh : get? (applied base patches) key = none := by
    rw [get?_applied, unmentioned]
    exact absent
  rw [put_of_absent fresh, extended, whole, nothing, append_nil]

end Entries

/-! ## The index of a base -/

section Index

variable [Hashable K]

/-- The hash of the key at a place. -/
def placeHash (base : List (K × V)) (index : Nat) : UInt64 :=
  (base[index]?.map fun entry => hash entry.1).getD 0

variable {base : List (K × V)}

theorem stored_of_lt {index : Nat} (inside : index < base.length) :
    Stored (placeHash base) base index := by
  unfold Stored placeHash
  rw [getElem?_eq_getElem inside]
  rfl

theorem Routed.congr {hashAt hashAt' : Nat → UInt64} {level : Nat} {node : AChampNode}
    (routed : Routed hashAt level node)
    (same : ∀ index ∈ collectAChampIndices node, hashAt' index = hashAt index) :
    Routed hashAt' level node := by
  have children : ∀ {level : Nat} {children : List (Nat × AChampNode)},
      Slotted hashAt level children →
      (∀ index ∈ collectSparse children, hashAt' index = hashAt index) →
        Slotted hashAt' level children ∧ ∀ child ∈ children,
          ∀ index ∈ collectAChampIndices child.2, hashAt' index = hashAt index := by
    intro level children slotted same
    have within : ∀ child ∈ children, ∀ index ∈ collectAChampIndices child.2,
        hashAt' index = hashAt index := by
      intro child mem index memIndex
      refine same index ?_
      rw [collectSparse_eq]
      exact mem_flatMap.mpr ⟨child, mem, memIndex⟩
    refine ⟨⟨slotted.distinct, slotted.small, fun child mem index memIndex => ?_⟩, within⟩
    rw [within child mem index memIndex]
    exact slotted.slots child mem index memIndex
  induction routed with
  | leafBlock level indices => exact .leafBlock _ _
  | collisionNode level indices => exact .collisionNode _ _
  | sparseNode slotted below ih =>
    obtain ⟨slotted', within⟩ := children slotted same
    exact .sparseNode slotted' fun child mem => ih child mem (within child mem)
  | @denseNode level direct slots slotted below ih =>
    rw [collectAChampIndices, collectDense_eq _ 0] at same
    obtain ⟨slotted', within⟩ := children slotted same
    exact .denseNode slots slotted' fun child mem => ih child mem (within child mem)
  | compressedPathNode path below ih =>
    refine .compressedPathNode (fun index mem => ?_) (ih same)
    rw [same index mem]
    exact path index mem

/-- The index of a base: it leads every hash to the places of the base. -/
def IndexOf (base : List (K × V)) (root : AChampNode) : Prop :=
  Indexes (placeHash base) 0 root (List.range base.length)

theorem indexOf_build (base : List (K × V)) : IndexOf base (buildAChampRoot base) := by
  have places : (base.zipIdx.map fun entry => (⟨hash entry.1.1, entry.2⟩ : HashedIndex)).map
      (·.index) = List.range base.length := by
    rw [map_map]
    exact zipIdx_map_snd 0 base ▸ (range_eq_range' ▸ rfl)
  have built := @buildAChampNode_indexes (placeHash base)
    (base.zipIdx.map fun entry => ⟨hash entry.1.1, entry.2⟩) 0 fun hashed mem => by
      obtain ⟨entry, memEntry, rfl⟩ := mem_map.mp mem
      unfold placeHash
      rw [mem_zipIdx_iff_getElem?.mp memEntry]
      rfl
  rw [places] at built
  exact built

theorem placeHash_congr {base base' : List (K × V)} {index : Nat}
    (same : base'[index]?.map Prod.fst = base[index]?.map Prod.fst) :
    placeHash base' index = placeHash base index := by
  have key : ∀ base : List (K × V),
      placeHash base index = ((base[index]?.map Prod.fst).map hash).getD 0 := by
    intro base
    unfold placeHash
    rw [Option.map_map]
    rfl
  rw [key, key, same]

variable {root : AChampNode}

/-- The index does not depend on the values. -/
theorem IndexOf.replace {base base' : List (K × V)} (h : IndexOf base root)
    (keys : base'.map Prod.fst = base.map Prod.fst) : IndexOf base' root := by
  have hashes : placeHash base' = placeHash base := by
    funext index
    refine placeHash_congr ?_
    rw [← getElem?_map, ← getElem?_map, keys]
  have length : base'.length = base.length := by
    rw [← length_map (f := Prod.fst), keys, length_map]
  unfold IndexOf
  rw [hashes, length]
  exact h

theorem placeHash_push {key : K} {value : V} {index : Nat} (small : index < base.length) :
    placeHash (base ++ [(key, value)]) index = placeHash base index :=
  placeHash_congr (by rw [getElem?_append_left small])

theorem IndexOf.inside (h : IndexOf base root) :
    ∀ index ∈ collectAChampIndices root, index < base.length :=
  fun index mem => mem_range.mp ((h.2.mem_iff index).mp mem)

/-- What an insertion behind the base relies on. -/
theorem IndexOf.pushed (h : IndexOf base root) (key : K) (value : V) :
    Routed (placeHash (base ++ [(key, value)])) 0 root ∧
      placeHash (base ++ [(key, value)]) base.length = hash key ∧
        ∀ index ∈ collectAChampIndices root ++ [base.length],
          Stored (placeHash (base ++ [(key, value)])) (base ++ [(key, value)]) index := by
  refine ⟨h.1.congr fun index mem => placeHash_push (h.inside index mem), ?_, fun index mem => ?_⟩
  · unfold placeHash
    rw [getElem?_concat_length]
    rfl
  · refine stored_of_lt ?_
    rw [length_append]
    rcases mem_append.mp mem with mem | mem
    · exact Nat.lt_add_right _ (h.inside index mem)
    · rw [mem_singleton.mp mem]
      exact Nat.lt_add_one _

theorem IndexOf.push (h : IndexOf base root) (key : K) (value : V) :
    IndexOf (base ++ [(key, value)])
      (insertAChampIndex (base ++ [(key, value)]) ⟨hash key, base.length⟩ root 0) := by
  obtain ⟨routed, own, stored⟩ := h.pushed key value
  have inserted : Indexes (placeHash (base ++ [(key, value)])) 0
      (insertAChampIndex (base ++ [(key, value)]) ⟨hash key, base.length⟩ root 0)
      (collectAChampIndices root ++ [base.length]) := insertAChampIndex_indexes routed own stored
  obtain ⟨routed', places⟩ := inserted
  refine ⟨routed', places.trans ?_⟩
  rw [length_append, length_singleton, range_succ]
  refine Alike.append (fun value' => ?_) (.refl _)
  have agree : ∀ indices : List Nat, (∀ index ∈ indices, index < base.length) →
      indices.filter (placeHash (base ++ [(key, value)]) · = value') =
        indices.filter (placeHash base · = value') := fun indices small =>
    filter_congr fun index mem => by rw [placeHash_push (small index mem)]
  rw [agree _ h.inside, agree _ fun index mem => mem_range.mp mem]
  exact h.2 value'

variable [BEq K] [LawfulHashable K]

/-- Looking a key up in the index of a base is looking it up in the base. -/
theorem IndexOf.lookup {α : Type} (h : IndexOf base root) (key : K) (found : Nat → K × V → α) :
    lookupAChamp base key (hash key) found root 0 =
      (base.findIdx? (·.1 == key)).bind fun index => base[index]?.map (found index) := by
  have hashed : ∀ index, holds base key index = true → placeHash base index = hash key := by
    intro index hit
    unfold holds at hit
    unfold placeHash
    cases stored : base[index]? with
    | none => rw [stored] at hit; cases hit
    | some entry =>
      rw [stored] at hit
      exact hash_eq hit
  rw [lookupAChamp_eq h.1 found fun index _ => hashed index,
    h.2.find?_eq fun index _ => hashed index, find?_range_holds]

/-- The two lookups of the source. -/
theorem IndexOf.lookupAChampNode (h : IndexOf base root) (key : K) :
    lookupAChampNode base root key (hash key) 0 = get? base key := by
  have place := h.lookup key fun _ entry => entry.2
  unfold PersistentMap.lookupAChampNode get?
  rw [place, find?_eq_bind_findIdx?_getElem?, Option.map_bind]
  rfl

theorem IndexOf.lookupAChampIndex (h : IndexOf base root) (key : K) :
    lookupAChampIndex base root key (hash key) 0 = base.findIdx? (·.1 == key) := by
  have place := h.lookup key fun index _ => index
  unfold PersistentMap.lookupAChampIndex
  rw [place]
  cases found : base.findIdx? (·.1 == key) with
  | none => rfl
  | some index =>
    obtain ⟨inside, -⟩ := findIdx?_eq_some_iff_getElem.mp found
    rw [Option.bind_some, getElem?_eq_getElem inside]
    rfl

end Index

/-! ## The map -/

section Map

variable [BEq K] [Hashable K]

/-- A map stands for a list of entries. -/
structure VmMapValue.Agrees (map : VmMapValue K V) (entries : List (K × V)) : Prop where
  lookup : ∀ key, map.lookup key = get? entries key
  len : map.len = entries.length
  toEntries : map.toEntries = entries

/-- The index leads to the base, the tombstones are noted, and the length is the one of the
patched entries. -/
def VmMapValue.WellFormed : VmMapValue K V → Prop
  | .flat _ => True
  | .indexed base root patches tombstoneHashes len =>
    IndexOf base root ∧
      (∀ patch ∈ patches, patch.value = none →
        tombstoneHashesContain tombstoneHashes patch.key = true) ∧
      len = (applied base patches).length

/-- The update goes wrong: in place, of a key that a patch hides, or of a new one that comes
before appended entries; or it removes several entries at once and counts one. -/
def VmMapValue.Misses (map : VmMapValue K V) (update : Update K V) : Prop :=
  match map with
  | .flat _ => False
  | .indexed base _ patches _ _ =>
    match update with
    | .insertOrReplace key _ true =>
      lookupPatch patches key ≠ none ∨ get? base key = none ∧ Appends base patches
    | .putPersistentOwned key _ true => get? base key ≠ none ∧ lookupPatch patches key ≠ none
    | .remove key =>
      1 < (map.toEntries.filter (·.1 == key)).length ∧
        patches.length < sharedPatchRebuildThreshold
    | _ => False

namespace VmMapValue

theorem fromEntries_spec (entries : List (K × V)) :
    (fromEntries entries).WellFormed ∧ (fromEntries entries).toEntries = entries := by
  unfold fromEntries
  split
  next =>
    refine ⟨⟨indexOf_build entries, fun patch mem => absurd mem not_mem_nil, rfl⟩, ?_⟩
    rw [toEntries_indexed]
    rfl
  next => exact ⟨trivial, rfl⟩

variable {map : VmMapValue K V}

theorem compact_spec (h : map.WellFormed) : map.compactSharedPatchChainIfNeeded.WellFormed ∧
      map.compactSharedPatchChainIfNeeded.toEntries = map.toEntries := by
  unfold compactSharedPatchChainIfNeeded
  cases map with
  | flat entries => exact ⟨h, rfl⟩
  | indexed base root patches tombstoneHashes len =>
    dsimp only
    split
    next => exact fromEntries_spec _
    next => exact ⟨h, rfl⟩

theorem insertFlat_spec (entries : List (K × V)) (key : K) (value : V) :
    (insertFlat entries key value).compactSharedPatchChainIfNeeded.WellFormed ∧
      (insertFlat entries key value).compactSharedPatchChainIfNeeded.toEntries =
        put entries key value := by
  have built : (insertFlat entries key value).WellFormed ∧
      (insertFlat entries key value).toEntries = put entries key value := by
    unfold insertFlat
    rw [insertOrReplaceEntries_eq]
    dsimp only
    split
    next => exact fromEntries_spec _
    next => exact ⟨trivial, rfl⟩
  obtain ⟨wellFormed, same⟩ := compact_spec built.1
  exact ⟨wellFormed, same.trans built.2⟩

variable [PartialEquivBEq K] [LawfulHashable K] {base : List (K × V)} {root : AChampNode}
  {patches : List (MapPatch K V)} {tombstoneHashes : Std.ExtTreeSet UInt64} {len : Nat}

section

variable (h : (indexed base root patches tombstoneHashes len).WellFormed)
include h

theorem patchedKeyExists_eq (key : K) :
    patchedKeyExists (lookupAChampIndex base root key (hash key) 0).isSome tombstoneHashes patches
      key = (get? (applied base patches) key).isSome := by
  obtain ⟨index, noted, -⟩ := h
  rw [index.lookupAChampIndex, findIdx?_isSome, get?_applied]
  unfold patchedKeyExists
  cases newest : lookupPatch patches key with
  | none =>
    rw [Option.getD_none]
    dsimp only
    cases contained : (get? base key).isSome with
    | false => rfl
    | true => exact ite_self true
  | some value =>
    cases value with
    | some value => simp
    | none =>
      obtain ⟨patch, search, removed⟩ := Option.map_eq_some_iff.mp newest
      have mem := mem_of_find?_eq_some search
      have hit := find?_some search
      have same : (patch.key == key) = true := hit
      have tombstone := noted patch mem removed
      unfold tombstoneHashesContain at tombstone ⊢
      rw [hash_eq same] at tombstone
      rw [tombstone]
      simp

theorem patch_spec (key : K) (value : V) :
    (patch base root patches tombstoneHashes len key value).compactSharedPatchChainIfNeeded.WellFormed ∧
      (patch base root patches tombstoneHashes len key
        value).compactSharedPatchChainIfNeeded.toEntries = put (applied base patches) key value := by
  have entries : applied base (⟨key, some value, patchesHaveTombstone patches⟩ :: patches) =
      put (applied base patches) key value := by
    rw [applied, insertOptionalPatch_eq]
  have patched : (patch base root patches tombstoneHashes len key value).WellFormed := by
    refine ⟨h.1, fun other mem removed => ?_, ?_⟩
    · rcases mem_cons.mp mem with rfl | mem
      · cases removed
      · exact h.2.1 other mem removed
    · rw [patchedKeyExists_eq h, entries, length_put, ← h.2.2]
      split <;> rfl
  obtain ⟨wellFormed, same⟩ := compact_spec patched
  refine ⟨wellFormed, same.trans ?_⟩
  unfold patch
  rw [toEntries_indexed]
  exact entries

omit [LawfulHashable K] in
/-- What an update in place does to an entry of the base. -/
theorem replace_spec {key : K} {index : Nat} {entry : K × V} (value : V)
    (found : base.findIdx? (·.1 == key) = some index) (stored : base[index]? = some entry)
    (unmentioned : lookupPatch patches key = none) :
    (indexed (base.set index (entry.1, value)) root patches tombstoneHashes len).WellFormed ∧
      (indexed (base.set index (entry.1, value)) root patches tombstoneHashes
        len).toEntries = put (applied base patches) key value := by
  have present : (get? base key).isSome := by
    rw [← findIdx?_isSome, found]
    rfl
  have replaced : base.set index (entry.1, value) = put base key value := by
    rw [← insertOrReplaceEntries_eq]
    unfold insertOrReplaceEntries
    rw [found]
    dsimp only
    rw [modify_eq_set_getElem?, stored]
    rfl
  rw [replaced, toEntries_indexed, applied_put value unmentioned present]
  refine ⟨⟨h.1.replace ?_, h.2.1, ?_⟩, rfl⟩
  · rw [map_fst_put, if_pos present, append_nil]
  · rw [applied_put value unmentioned present, length_put, get?_applied, unmentioned,
      Option.getD_none, if_pos present]
    exact h.2.2

omit [LawfulHashable K] in
theorem push_spec {key : K} (value : V) (absent : get? base key = none)
    (unmentioned : lookupPatch patches key = none) (plain : ¬ Appends base patches) :
    (indexed (base ++ [(key, value)])
      (insertAChampIndex (base ++ [(key, value)]) ⟨hash key, base.length⟩ root 0) patches
      tombstoneHashes (len + 1)).WellFormed ∧ (indexed (base ++ [(key, value)])
        (insertAChampIndex (base ++ [(key, value)]) ⟨hash key, base.length⟩ root 0) patches
        tombstoneHashes (len + 1)).toEntries = put (applied base patches) key value := by
  have pushed := applied_push value unmentioned absent plain
  rw [toEntries_indexed, pushed]
  refine ⟨⟨h.1.push key value, h.2.1, ?_⟩, rfl⟩
  rw [pushed, length_put, get?_applied, unmentioned, Option.getD_none, absent]
  exact congrArg (· + 1) h.2.2

end

omit [Hashable K] [PartialEquivBEq K] [LawfulHashable K] in
theorem length_erase {entries : List (K × V)} {key : K} (present : (get? entries key).isSome)
    (once : ¬ 1 < (entries.filter (·.1 == key)).length) :
    (erase entries key).length = entries.length - 1 := by
  have parts : entries.length =
      (entries.filter (·.1 == key)).length + (erase entries key).length :=
    length_eq_length_filter_add _
  have some : 0 < (entries.filter (·.1 == key)).length := by
    obtain ⟨value, found⟩ := Option.isSome_iff_exists.mp present
    obtain ⟨entry, search, -⟩ := Option.map_eq_some_iff.mp found
    have hit := find?_some search
    exact length_pos_of_mem (mem_filter.mpr ⟨mem_of_find?_eq_some search, hit⟩)
  omega

theorem remove_spec (h : (indexed base root patches tombstoneHashes len).WellFormed) {key : K}
    (counted : ¬ (1 < ((applied base patches).filter (·.1 == key)).length ∧
      patches.length < sharedPatchRebuildThreshold)) :
    ((indexed base root patches tombstoneHashes len).remove key).WellFormed ∧
      ((indexed base root patches tombstoneHashes len).remove key).toEntries =
        erase (applied base patches) key := by
  rw [remove, patchedKeyExists_eq h]
  cases present : (get? (applied base patches) key).isSome with
  | false =>
    obtain ⟨wellFormed, same⟩ := compact_spec h
    rw [if_neg Bool.false_ne_true]
    refine ⟨wellFormed, same.trans ?_⟩
    rw [toEntries_indexed, erase_of_absent (Option.isSome_eq_false_iff.mp present |>
      Option.isNone_iff_eq_none.mp)]
  | true =>
    rw [if_pos rfl]
    have entries : (indexed base root (⟨key, none, true⟩ :: patches)
        (tombstoneHashes.insert (hash key)) (len - 1)).toEntries =
          erase (applied base patches) key := by
      rw [toEntries_indexed, applied, insertOptionalPatch_eq]
    by_cases long : patches.length < sharedPatchRebuildThreshold
    · have once : ¬ 1 < ((applied base patches).filter (·.1 == key)).length :=
        fun several => counted ⟨several, long⟩
      have removed : (indexed base root (⟨key, none, true⟩ :: patches)
          (tombstoneHashes.insert (hash key)) (len - 1)).WellFormed := by
        refine ⟨h.1, fun patch mem gone => ?_, ?_⟩
        · unfold tombstoneHashesContain
          rcases mem_cons.mp mem with rfl | mem
          · exact Std.ExtTreeSet.contains_insert_self
          · have noted := h.2.1 patch mem gone
            unfold tombstoneHashesContain at noted
            rw [Std.ExtTreeSet.contains_insert, noted, Bool.or_true]
        · rw [applied, insertOptionalPatch_eq]
          dsimp only
          rw [length_erase present once, ← h.2.2]
      obtain ⟨wellFormed, same⟩ := compact_spec removed
      exact ⟨wellFormed, same.trans entries⟩
    · have rebuilt : sharedPatchRebuildThreshold <
          ((⟨key, none, true⟩ : MapPatch K V) :: patches).length :=
        Nat.lt_succ_of_le (Nat.le_of_not_lt long)
      rw [compactSharedPatchChainIfNeeded, if_pos rebuilt, entries]
      exact fromEntries_spec _

/-- One update that does not go wrong. -/
theorem call_spec (h : map.WellFormed) {update : Update K V} (right : ¬ map.Misses update) :
    (map.call update).1.WellFormed ∧
      (map.call update).1.toEntries = update.reference map.toEntries := by
  cases map with
  | flat entries =>
    cases update with
    | insertOrReplace key value unique | putPersistent key value
    | putPersistentOwned key value unique => exact insertFlat_spec entries key value
    | remove key => exact @compact_spec K V _ _ (.flat (removeEntries entries key)) trivial
  | indexed base root patches tombstoneHashes len =>
    cases update with
    | insertOrReplace key value unique =>
      rw [Update.reference, toEntries_indexed]
      cases unique with
      | false => exact patch_spec h key value
      | true =>
        obtain ⟨mentioned, plain⟩ := not_or.mp right
        have unmentioned := not_not.mp mentioned
        rw [call, insertOrReplace, if_pos rfl, h.1.lookupAChampIndex]
        cases found : base.findIdx? (·.1 == key) with
        | none =>
          have absent : get? base key = none := by
            rw [← Option.isNone_iff_eq_none, ← Option.not_isSome, ← findIdx?_isSome, found]
            rfl
          exact push_spec h value absent unmentioned fun appends => plain ⟨absent, appends⟩
        | some index =>
          obtain ⟨inside, -⟩ := findIdx?_eq_some_iff_getElem.mp found
          have stored := getElem?_eq_getElem inside
          rw [Option.bind_some, stored]
          exact replace_spec h value found stored unmentioned
    | putPersistent key value =>
      rw [Update.reference, toEntries_indexed]
      exact patch_spec h key value
    | putPersistentOwned key value unique =>
      rw [Update.reference, toEntries_indexed, call, putPersistentOwned,
        h.1.lookupAChampIndex]
      cases found : base.findIdx? (·.1 == key) with
      | none => exact patch_spec h key value
      | some index =>
        cases unique with
        | false => exact patch_spec h key value
        | true =>
          obtain ⟨inside, -⟩ := findIdx?_eq_some_iff_getElem.mp found
          have stored := getElem?_eq_getElem inside
          have present : get? base key ≠ none := by
            rw [← Option.isSome_iff_ne_none, ← findIdx?_isSome, found]
            rfl
          have unmentioned : lookupPatch patches key = none :=
            not_not.mp fun mentioned => right ⟨present, mentioned⟩
          dsimp only
          rw [if_pos rfl, stored]
          exact replace_spec h value found stored unmentioned
    | remove key =>
      rw [Update.reference, toEntries_indexed]
      refine remove_spec h fun several => right ?_
      rw [← toEntries_indexed base root patches tombstoneHashes len] at several
      exact several

theorem WellFormed.agrees (h : map.WellFormed) : map.Agrees map.toEntries := by
  cases map with
  | flat entries => exact ⟨fun _ => rfl, rfl, rfl⟩
  | indexed base root patches tombstoneHashes len =>
    refine ⟨fun key => ?_, ?_, rfl⟩
    · rw [toEntries_indexed, get?_applied, lookup, h.1.lookupAChampNode]
      cases lookupPatch patches key <;> rfl
    · rw [toEntries_indexed]
      exact h.2.2

theorem run_spec (updates : List (Update K V)) : ∀ {map : VmMapValue K V}, map.WellFormed →
      Guarded call (fun map update => ¬ map.Misses update) map updates →
        (replay call map updates).1.WellFormed ∧ (replay call map updates).1.toEntries =
            updates.foldl Update.reference map.toEntries := by
  induction updates with
  | nil => exact fun h _ => ⟨h, rfl⟩
  | cons update updates ih =>
    intro map h right
    obtain ⟨wellFormed, same⟩ := call_spec h right.1
    rw [replay_cons_fst, foldl_cons, ← same]
    exact ih wellFormed right.2

end VmMapValue

/-- A map that was built from some entries and updated stands for the updated entries, as long
as no update went wrong. -/
theorem map_refines_list [PartialEquivBEq K] [LawfulHashable K] (entries : List (K × V)) (updates : List (Update K V))
    (right : Guarded call (fun map update => ¬ map.Misses update) (.fromEntries entries) updates) :
    (replay call (.fromEntries entries) updates).1.Agrees
      (updates.foldl Update.reference entries) := by
  obtain ⟨wellFormed, same⟩ := fromEntries_spec entries
  obtain ⟨wellFormed', same'⟩ := run_spec updates wellFormed right
  rw [same] at same'
  rw [← same']
  exact wellFormed'.agrees

/-- A patched key does not see an update in place. -/
theorem insertOrReplace_hidden {base : List (K × V)} {root : AChampNode}
    {patches : List (MapPatch K V)} {tombstoneHashes : Std.ExtTreeSet UInt64} {len : Nat}
    {key : K} {latest : Option V} (value : V) (hidden : lookupPatch patches key = some latest) :
    ((indexed base root patches tombstoneHashes len).insertOrReplace true key
      value).lookup key = latest := by
  rw [insertOrReplace, if_pos rfl]
  dsimp only
  split
  next => rw [VmMapValue.lookup, hidden]
  next => rw [VmMapValue.lookup, hidden]

end Map

/-- Some entries are replaced, added and removed. -/
theorem map_refines_list_small : Guarded call (fun map update => ¬ map.Misses update)
        (.fromEntries [(1, 10)] : VmMapValue Nat Nat)
        [.insertOrReplace 2 20 true, .putPersistent 1 11, .remove 2] ∧
      (replay call (.fromEntries [(1, 10)] : VmMapValue Nat Nat)
        [.insertOrReplace 2 20 true, .putPersistent 1 11, .remove 2]).1.Agrees
        ([.insertOrReplace 2 20 true, .putPersistent 1 11, .remove 2].foldl Update.reference
          [(1, 10)]) := by
  have right : Guarded call (fun map update => ¬ map.Misses update)
      (.fromEntries [(1, 10)] : VmMapValue Nat Nat)
      [.insertOrReplace 2 20 true, .putPersistent 1 11, .remove 2] :=
    ⟨id, id, id, trivial⟩
  exact ⟨right, map_refines_list [(1, 10)] _ right⟩

/-- A key that is removed and put again in place stays removed. -/
theorem map_refines_list_fails : ¬ ∀ (entries : List (Nat × Nat)) (updates : List (Update Nat Nat)),
      (replay call (.fromEntries entries) updates).1.Agrees
        (updates.foldl Update.reference entries) := by
  intro every
  obtain ⟨entries, built⟩ : ∃ entries : List (Nat × Nat),
      entries = (List.range 128).map fun key => (key, key) := ⟨_, rfl⟩
  have large : shouldUseIndexedMap entries.length = true := by
    rw [built, length_map, length_range]
    decide
  have first : (get? entries 0).isSome = true := by
    rw [built]
    rfl
  have start : fromEntries entries =
      .indexed entries (buildAChampRoot entries) [] ∅ entries.length := if_pos large
  have agrees := every entries [.remove 0, .insertOrReplace 0 1 true]
  have wellFormed := (fromEntries_spec entries).1
  rw [start] at wellFormed agrees
  have removed : (indexed entries (buildAChampRoot entries) [] ∅ entries.length).remove 0 =
      .indexed entries (buildAChampRoot entries) [⟨0, none, true⟩]
        ((∅ : Std.ExtTreeSet UInt64).insert (hash 0)) (entries.length - 1) := by
    rw [VmMapValue.remove, patchedKeyExists_eq wellFormed, applied, first]
    rfl
  have missing := agrees.lookup 0
  rw [replay_cons_fst, call, removed, replay_cons_fst, call, replay_nil,
    insertOrReplace_hidden 1 rfl] at missing
  rw [foldl_cons, foldl_cons, foldl_nil, Update.reference, Update.reference,
    AssocList.get?_put] at missing
  cases missing


end Terlan.PersistentMap
