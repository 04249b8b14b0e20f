/-
  Persistent map of the VM: a flat list of entries while it is small, and above that a base
  list with an index and a chain of patches. Whether the base is shared is not part of the
  value: an update in place is told by its caller that nobody else has the base (`unique`).
-/
import Std.Data.ExtTreeSet
import Terlan.Lib.AssocList
import Terlan.PersistentMap.AChamp

namespace Terlan.PersistentMap

open Terlan.Lib
open Std (ExtTreeSet)

variable {K V : Type}

def sharedPatchRebuildThreshold : Nat := 8

/-- One shared update. -/
structure MapPatch (K V : Type) where
  key : K
  value : Option V
  hasTombstone : Bool

/-- The chain `patches` is a list whose head is the newest one. -/
inductive VmMapValue (K V : Type) where
  | flat (entries : List (K × V))
  | indexed (base : List (K × V)) (root : AChampNode) (patches : List (MapPatch K V))
      (tombstoneHashes : ExtTreeSet UInt64) (len : Nat)

/-! ## Flat entries -/

section Entries

variable [BEq K]

def lookupEntries (entries : List (K × V)) (key : K) : Option V :=
  (entries.find? (·.1 == key)).map Prod.snd

def insertOrReplaceEntries (entries : List (K × V)) (key : K) (value : V) : List (K × V) :=
  match entries.findIdx? (·.1 == key) with
  | some index => entries.modify index fun existing => (existing.1, value)
  | none => entries ++ [(key, value)]

def removeEntries (entries : List (K × V)) (key : K) : List (K × V) :=
  entries.filter (·.1 != key)

def insertOptionalPatch (entries : List (K × V)) (key : K) : Option V → List (K × V)
  | some value => insertOrReplaceEntries entries key value
  | none => removeEntries entries key

end Entries

/-! ## Patches -/

def lookupPatch [BEq K] (patches : List (MapPatch K V)) (key : K) : Option (Option V) :=
  (patches.find? (·.key == key)).map (·.value)

def patchesHaveTombstone (patches : List (MapPatch K V)) : Bool :=
  patches.head?.any (·.hasTombstone)

def tombstoneHashesContain [Hashable K] (tombstoneHashes : ExtTreeSet UInt64) (key : K) : Bool :=
  tombstoneHashes.contains (hash key)

def patchedKeyExists [BEq K] [Hashable K] (baseContains : Bool)
    (tombstoneHashes : ExtTreeSet UInt64) (patches : List (MapPatch K V)) (key : K) : Bool :=
  if baseContains && !tombstoneHashesContain tombstoneHashes key then true
  else
    match lookupPatch patches key with
    | some (some _) => true
    | some none => false
    | none => baseContains

namespace VmMapValue

/-! ## The map -/

def len : VmMapValue K V → Nat
  | .flat entries => entries.length
  | .indexed _ _ _ _ len => len

section Keys

variable [BEq K] [Hashable K]

def fromEntries (entries : List (K × V)) : VmMapValue K V :=
  if shouldUseIndexedMap entries.length then
    .indexed entries (buildAChampRoot entries) [] ∅ entries.length
  else .flat entries

def toEntries : VmMapValue K V → List (K × V)
  | .flat entries => entries
  | .indexed base _ patches _ _ =>
    patches.reverse.foldl (fun entries patch => insertOptionalPatch entries patch.key patch.value)
      base

def lookup (map : VmMapValue K V) (key : K) : Option V :=
  match map with
  | .flat entries => lookupEntries entries key
  | .indexed base root patches _ _ =>
    match lookupPatch patches key with
    | some value => value
    | none => lookupAChampNode base root key (hash key) 0

/-- Rebuilds a map whose chain of patches has become too long. -/
def compactSharedPatchChainIfNeeded (map : VmMapValue K V) : VmMapValue K V :=
  match map with
  | .flat _ => map
  | .indexed _ _ patches _ _ =>
    if sharedPatchRebuildThreshold < patches.length then fromEntries map.toEntries else map

/-- Adds an update to the chain. -/
def patch (base : List (K × V)) (root : AChampNode) (patches : List (MapPatch K V))
    (tombstoneHashes : ExtTreeSet UInt64) (len : Nat) (key : K) (value : V) : VmMapValue K V :=
  let baseContains := (lookupAChampIndex base root key (hash key) 0).isSome
  let existed := patchedKeyExists baseContains tombstoneHashes patches key
  .indexed base root (⟨key, some value, patchesHaveTombstone patches⟩ :: patches) tombstoneHashes
    (if existed then len else len + 1)

def insertFlat (entries : List (K × V)) (key : K) (value : V) : VmMapValue K V :=
  let entries := insertOrReplaceEntries entries key value
  if shouldUseIndexedMap entries.length then fromEntries entries else .flat entries

/-- Inserts or replaces in place. -/
def insertOrReplace (unique : Bool) (map : VmMapValue K V) (key : K) (value : V) :
    VmMapValue K V :=
  match map with
  | .flat entries => (insertFlat entries key value).compactSharedPatchChainIfNeeded
  | .indexed base root patches tombstoneHashes len =>
    if unique then
      let existing := (lookupAChampIndex base root key (hash key) 0).bind fun index =>
        base[index]?.map fun entry => (index, entry)
      match existing with
      | some (index, entry) =>
        .indexed (base.set index (entry.1, value)) root patches tombstoneHashes len
      | none =>
        let base' := base ++ [(key, value)]
        .indexed base' (insertAChampIndex base' ⟨hash key, base.length⟩ root 0) patches
          tombstoneHashes (len + 1)
    else
      (patch base root patches tombstoneHashes len key value).compactSharedPatchChainIfNeeded

/-- The clone that is updated shares its base with the map. -/
def putPersistent (map : VmMapValue K V) (key : K) (value : V) : VmMapValue K V :=
  insertOrReplace false map key value

/-- The updated map when nobody needs the old one. -/
def putPersistentOwned (unique : Bool) (map : VmMapValue K V) (key : K) (value : V) :
    VmMapValue K V :=
  match map with
  | .flat entries => (insertFlat entries key value).compactSharedPatchChainIfNeeded
  | .indexed base root patches tombstoneHashes len =>
    match (lookupAChampIndex base root key (hash key) 0) with
    | some index =>
      if unique then
        match base[index]? with
        | some entry =>
          .indexed (base.set index (entry.1, value)) root patches tombstoneHashes len
        | none =>
          (patch base root patches tombstoneHashes len key value).compactSharedPatchChainIfNeeded
      else (patch base root patches tombstoneHashes len key value).compactSharedPatchChainIfNeeded
    | none =>
      (patch base root patches tombstoneHashes len key value).compactSharedPatchChainIfNeeded

/-- Removes in place. -/
def remove (map : VmMapValue K V) (key : K) : VmMapValue K V :=
  match map with
  | .flat entries => (VmMapValue.flat (removeEntries entries key)).compactSharedPatchChainIfNeeded
  | .indexed base root patches tombstoneHashes len =>
    let baseContains := (lookupAChampIndex base root key (hash key) 0).isSome
    let updated : VmMapValue K V :=
      if patchedKeyExists baseContains tombstoneHashes patches key then
        .indexed base root (⟨key, none, true⟩ :: patches) (tombstoneHashes.insert (hash key))
          (len - 1)
      else .indexed base root patches tombstoneHashes len
    updated.compactSharedPatchChainIfNeeded

end Keys

end VmMapValue

/-! ## Runs -/

/-- One update; the ones in place say whether the base of the map is shared. -/
inductive Update (K V : Type) where
  | insertOrReplace (key : K) (value : V) (unique : Bool)
  | putPersistent (key : K) (value : V)
  | putPersistentOwned (key : K) (value : V) (unique : Bool)
  | remove (key : K)

def VmMapValue.call [BEq K] [Hashable K] (map : VmMapValue K V) :
    Update K V → VmMapValue K V × Unit
  | .insertOrReplace key value unique => (map.insertOrReplace unique key value, ())
  | .putPersistent key value => (map.putPersistent key value, ())
  | .putPersistentOwned key value unique => (map.putPersistentOwned unique key value, ())
  | .remove key => (map.remove key, ())

/-- What an update does to the list of entries that a map stands for. -/
def Update.reference [BEq K] (entries : List (K × V)) : Update K V → List (K × V)
  | .insertOrReplace key value _ => AssocList.put entries key value
  | .putPersistent key value => AssocList.put entries key value
  | .putPersistentOwned key value _ => AssocList.put entries key value
  | .remove key => AssocList.erase entries key

end Terlan.PersistentMap
