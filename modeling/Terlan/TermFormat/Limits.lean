/-
  Byte limits of the encoder.

  * `bounded_encoding`: under a limit the encoder returns what it returns without one, and an
    error when that is longer than the limit.
  * `checkpoint_restores`: what comes back from a checkpoint of a store, and which stores have
    no checkpoint.
-/
import Terlan.TermFormat.RoundTrip

namespace Terlan.TermFormat

open Terlan.Lib Terlan.DistributedState List
open Std (ExtTreeMap)

/-! ## Limits -/

/-- An encoder that takes a limit agrees with itself under the limit of the host. -/
structure AgreesWithin (encode : Nat → Except String Bytes) (maximum : Nat) : Prop where
  fits : ∀ bytes, encode usizeMax = .ok bytes → bytes.length ≤ maximum →
    encode maximum = .ok bytes
  exceeds : ∀ bytes, encode usizeMax = .ok bytes → maximum < bytes.length →
    ∃ message, encode maximum = .error message
  fails : ∀ message, encode usizeMax = .error message → ∃ message, encode maximum = .error message

theorem agreesWithin_of {encode : Nat → Except String Bytes} {valid : Prop} {out : Bytes}
    (h : ∀ limit bytes, encode limit = .ok bytes ↔ valid ∧ bytes = out ∧ bytes.length ≤ limit)
    {maximum : Nat} (host : maximum ≤ usizeMax) : AgreesWithin encode maximum where
  fits bytes run fits := by
    obtain ⟨holds, same, -⟩ := (h usizeMax bytes).mp run
    exact (h maximum bytes).mpr ⟨holds, same, fits⟩
  exceeds bytes run exceeds := by
    obtain ⟨-, rfl, -⟩ := (h usizeMax bytes).mp run
    cases bounded : encode maximum with
    | error message => exact ⟨message, rfl⟩
    | ok other =>
      obtain ⟨-, rfl, fits⟩ := (h maximum other).mp bounded
      omega
  fails message run := by
    cases bounded : encode maximum with
    | error message => exact ⟨message, rfl⟩
    | ok other =>
      obtain ⟨holds, same, fits⟩ := (h maximum other).mp bounded
      have unbounded := (h usizeMax other).mpr ⟨holds, same, Nat.le_trans fits host⟩
      rw [run] at unbounded
      cases unbounded

theorem encodedInto_encodeValue_ok_iff {declaredAtoms : List String} {value : ReplValue}
    {depth limit : Nat} {bytes : Bytes} :
    encodedInto limit (encodeValue declaredAtoms value depth) = .ok bytes ↔
      Encodable declaredAtoms (maxNestingDepth - depth) value ∧
        bytes = encoding value ∧ bytes.length ≤ limit := by
  rw [encodedInto_ok_iff (encodeValue_writes value depth)]
  exact and_congr_right fun _ => ⟨fun ⟨eq, fits⟩ => ⟨eq, eq ▸ fits⟩, fun ⟨eq, fits⟩ => ⟨eq, eq ▸ fits⟩⟩

/-- A byte limit of the host, for a value at any depth and for a distribution envelope. -/
theorem bounded_encoding (declaredAtoms : List String) (maximum : UInt64) :
    (∀ value depth, AgreesWithin
        (fun limit => encodedInto limit (encodeValue declaredAtoms value depth)) maximum.toNat) ∧
      ∀ envelope, AgreesWithin
        (encodeTetfDistributionEnvelopeBounded envelope declaredAtoms) maximum.toNat := by
  have host : maximum.toNat ≤ usizeMax := Nat.le_pred_of_lt maximum.toNat_lt
  exact ⟨fun value depth => agreesWithin_of (fun _ _ => encodedInto_encodeValue_ok_iff) host,
    fun envelope => agreesWithin_of (fun _ _ => encodeTetfDistributionEnvelope_ok_iff) host⟩

/-! ## Values that lose no item -/

section Kept

theorem eq_of_sum_eq {α : Type} {f g : α → Nat} {l : List α} (le : ∀ a ∈ l, f a ≤ g a)
    (same : (l.map f).sum = (l.map g).sum) : ∀ a ∈ l, f a = g a := by
  induction l with
  | nil => exact forall_mem_nil _
  | cons a l ih =>
    obtain ⟨own, later⟩ := forall_mem_cons.mp le
    have rest : (l.map f).sum ≤ (l.map g).sum := sum_le_sum later
    rw [map_cons, map_cons, sum_cons, sum_cons] at same
    exact forall_mem_cons.mpr ⟨by omega, ih later (by omega)⟩

/-- No item of a set in the value is dropped for an equal one. -/
def KeepsItems (value : ReplValue) : Prop := nestedValues (canonical value) = nestedValues value

theorem keepsItems_of_sum {α : Type} {value : α → ReplValue} {l : List α}
    (same : (l.map fun a => 1 + nestedValues (canonical (value a))).sum =
      (l.map fun a => 1 + nestedValues (value a)).sum) : ∀ a ∈ l, KeepsItems (value a) :=
  fun a mem => Nat.add_left_cancel (eq_of_sum_eq
    (fun b _ => Nat.add_le_add_left (nestedValues_canonical_le (value b)) 1) same a mem)

theorem keepsItems_items {items : List ReplValue}
    (same : itemsValues (items.map canonical) = itemsValues items) :
    ∀ item ∈ items, KeepsItems item := by
  rw [itemsValues_eq, itemsValues_eq, map_map] at same
  exact keepsItems_of_sum same

/-- Nothing is dropped from a set all of whose items are kept. -/
theorem keepsItems_set {items : List ReplValue} (keeps : KeepsItems (.set items)) :
    (∀ item ∈ items, item ∈ uniqueItems items) ∧ ∀ item ∈ uniqueItems items, KeepsItems item := by
  unfold KeepsItems at keeps
  rw [canonical_set, nestedValues, nestedValues, itemsValues_eq, itemsValues_eq, map_map]
    at keeps
  have below : ((uniqueItems items).map fun item => 1 + nestedValues (canonical item)).sum ≤
      ((uniqueItems items).map fun item => 1 + nestedValues item).sum :=
    sum_le_sum fun item _ => Nat.add_le_add_left (nestedValues_canonical_le item) 1
  have dropped : ((uniqueItems items).map fun item => 1 + nestedValues item).sum ≤
      (items.map fun item => 1 + nestedValues item).sum :=
    sum_sortUnique_le encoding (fun item => 1 + nestedValues item) items
  have middle : ((uniqueItems items).map fun item => 1 + nestedValues (canonical item)).sum =
    (items.map fun item => 1 + nestedValues item).sum := keeps
  exact ⟨mem_sortUnique_of_sum_eq (fun item _ => Nat.add_pos_left Nat.one_pos _) (by
      change ((uniqueItems items).map fun item => 1 + nestedValues item).sum = _
      omega),
    keepsItems_of_sum (by omega)⟩

variable {declaredAtoms : List String}

/-- A value has an encoding when its canonical form has one and no item is dropped. -/
theorem encodable_of_canonical (value : ReplValue) :
    ∀ {levels : Nat}, Encodable declaredAtoms levels (canonical value) → KeepsItems value →
      Encodable declaredAtoms levels value := by
  induction value using ReplValue.induction with
  | unit | int _ | float _ | string _ | bytes _ | bitString _ | atom _ | bool _ | closure _ _ _ =>
    intro levels h _
    exact h
  | stringBytes bytes =>
    intro levels h _
    rw [canonical] at h
    split at h
    next text utf8 =>
      obtain ⟨positive, fits⟩ := encodable_string_iff.mp h
      rw [asBytes_of_fromUtf8 utf8] at fits
      exact encodable_stringBytes_iff.mpr ⟨positive, ⟨text, utf8⟩, fits⟩
    next => exact h
  | tuple items ih =>
    intro levels h keeps
    unfold KeepsItems at keeps
    rw [canonical_tuple] at h keeps
    obtain ⟨positive, fits, nested⟩ := encodable_tuple_iff.mp h
    rw [length_map] at fits
    have nested := forall_mem_map.mp nested
    exact encodable_tuple_iff.mpr ⟨positive, fits, fun item mem =>
      ih item mem (nested item mem) (keepsItems_items keeps item mem)⟩
  | list items ih =>
    intro levels h keeps
    unfold KeepsItems at keeps
    rw [canonical_list] at h keeps
    obtain ⟨positive, fits, nested⟩ := encodable_list_iff.mp h
    rw [length_map] at fits
    have nested := forall_mem_map.mp nested
    exact encodable_list_iff.mpr ⟨positive, fits, fun item mem =>
      ih item mem (nested item mem) (keepsItems_items keeps item mem)⟩
  | record name fields ih =>
    intro levels h keeps
    have perm : (sortedFields fields).Perm fields := sortByKey_perm _ _
    unfold KeepsItems at keeps
    rw [canonical_record, nestedValues, nestedValues, fieldsValues_eq, fieldsValues_eq,
      map_map, ← (perm.map fun field => 1 + nestedValues field.2).sum_eq] at keeps
    have kept : ∀ field ∈ sortedFields fields, KeepsItems field.2 := keepsItems_of_sum keeps
    rw [canonical_record] at h
    obtain ⟨positive, named, nameFits, fits, distinct, nested⟩ := encodable_record_iff.mp h
    rw [length_map, perm.length_eq] at fits
    rw [map_map] at distinct
    have names : (fields.map Prod.fst).Nodup := (perm.map Prod.fst).nodup_iff.mp distinct
    have nested := forall_mem_map.mp nested
    refine encodable_record_iff.mpr ⟨positive, named, nameFits, fits, names, fun field mem => ?_⟩
    have mem' : field ∈ sortedFields fields := mem_sortByKey.mpr mem
    exact ⟨(nested field mem').1, ih field mem (nested field mem').2 (kept field mem')⟩
  | map entries ih =>
    intro levels h keeps
    have perm : (sortedEntries entries).Perm entries := sortByKey_perm _ _
    unfold KeepsItems at keeps
    rw [canonical_map, nestedValues, nestedValues, entriesValues_eq, entriesValues_eq,
      map_map,
      ← (perm.map fun entry => 2 + nestedValues entry.1 + nestedValues entry.2).sum_eq] at keeps
    have each := eq_of_sum_eq (fun entry _ => by
      have := nestedValues_canonical_le entry.1
      have := nestedValues_canonical_le entry.2
      simp only [Function.comp]
      omega) keeps
    rw [canonical_map] at h
    obtain ⟨positive, fits, distinct, keys, values⟩ := encodable_map_iff.mp h
    rw [length_map, perm.length_eq] at fits
    have keys := forall_mem_map.mp keys
    have values := forall_mem_map.mp values
    have own : ∀ entry ∈ sortedEntries entries,
        Encodable declaredAtoms (levels - 1) entry.1 ∧
          Encodable declaredAtoms (levels - 1) entry.2 := by
      intro entry mem
      have key := nestedValues_canonical_le entry.1
      have value := nestedValues_canonical_le entry.2
      have both := each entry mem
      simp only [Function.comp] at both
      obtain ⟨ihKey, ihValue⟩ := ih entry (mem_sortByKey.mp mem)
      exact ⟨ihKey (keys entry mem) (by unfold KeepsItems; omega),
        ihValue (values entry mem) (by unfold KeepsItems; omega)⟩
    refine encodable_map_iff.mpr ⟨positive, fits, ?_, fun entry mem =>
      (own entry (mem_sortByKey.mpr mem)).1, fun entry mem => (own entry (mem_sortByKey.mpr mem)).2⟩
    rw [map_map] at distinct
    refine (perm.map fun entry => encoding entry.1).nodup_iff.mp ?_
    rw [map_congr_left fun entry mem => ((keepsCanonical _ (own entry mem).1).same).symm]
    exact distinct
  | set items ih =>
    intro levels h keeps
    obtain ⟨all, kept⟩ := keepsItems_set keeps
    rw [canonical_set] at h
    obtain ⟨positive, fits, nested⟩ := encodable_set_iff.mp h
    have nested := forall_mem_map.mp nested
    have own : ∀ item ∈ uniqueItems items, Encodable declaredAtoms (levels - 1) item :=
      fun item mem => ih item (mem_of_mem_sortUnique mem) (nested item mem) (kept item mem)
    refine encodable_set_iff.mpr ⟨positive, ?_, fun item mem => own item (all item mem)⟩
    have strict : ((uniqueItems items).map canonical).Pairwise (KeyLT encoding) :=
      pairwise_keyLT_map (fun item mem => (keepsCanonical _ (own item mem)).same)
        (uniqueItems_strict items)
    have unique : uniqueItems ((uniqueItems items).map canonical) =
        (uniqueItems items).map canonical := sortUnique_eq_self strict
    rw [unique, length_map] at fits
    exact fits

end Kept

/-! ## Checkpoints of stores -/

section Checkpoints

open VmDistributedStateStore

variable {declaredAtoms : List String}

abbrev Store := VmDistributedStateStore ReplValue

def canonicalEntry (entry : Entry) : Entry := { entry with value := canonical entry.value }

/-- Every entry with its value in canonical form. -/
def canonicalStore (store : Store) : Store :=
  ⟨store.entries.map fun _ entry => canonicalEntry entry⟩

def checkpoint (store : Store) (declaredAtoms : List String) (maximum : Nat) :
    Except String Bytes :=
  encodeTetfCheckpoint store.exportSnapshot declaredAtoms maximum

def restore (bytes : Bytes) (declaredAtoms : List String) : Except String Store :=
  decodeTetfCheckpoint bytes declaredAtoms >>= importSnapshot

variable {store : Store}

theorem canonicalStore_keyed (keyed : store.Keyed) : (canonicalStore store).Keyed := by
  intro scope entry held
  unfold canonicalStore at held
  rw [ExtTreeMap.getElem?_map, Option.map_eq_some_iff] at held
  obtain ⟨own, held, rfl⟩ := held
  exact keyed scope own held

theorem sortedScopes_exportSnapshot (keyed : store.Keyed) :
    sortedScopes store.exportSnapshot = store.exportSnapshot :=
  sortByKey_eq_self (exportSnapshot_sorted keyed)

theorem canonicalCheckpoint_exportSnapshot (keyed : store.Keyed) :
    canonicalCheckpoint store.exportSnapshot = (canonicalStore store).exportSnapshot := by
  unfold canonicalCheckpoint
  rw [sortedScopes_exportSnapshot keyed]
  unfold exportSnapshot valuesOf canonicalStore
  rw [ExtTreeMap.toList_map, map_map, map_map]
  rfl

theorem importable_of_valid {entry : Entry} (valid : ValidEntry entry) : Importable entry where
  stateNamespace := valid.stateNamespace
  key := valid.key
  owner := valid.owner
  sequence := valid.sequence
  node := valid.node

/-- Importing a snapshot gives back the store. -/
theorem importSnapshot_exportSnapshot (keyed : store.Keyed)
    (valid : ValidCheckpoint declaredAtoms store.exportSnapshot) :
    importSnapshot store.exportSnapshot = .ok store := by
  obtain ⟨other, run, otherKeyed, holds⟩ := importSnapshot_ok
    (fun entry mem => importable_of_valid (valid.entry entry mem).1) valid.scopes
  rw [run]
  refine congrArg Except.ok (otherKeyed.ext keyed fun entry => ?_)
  rw [holds entry, mem_exportSnapshot keyed]

/-- Where no item is dropped, a snapshot fits a checkpoint when its canonical form does. -/
theorem validCheckpoint_of_canonical {entries : List Entry}
    (keeps : ∀ entry ∈ entries, KeepsItems entry.value)
    (valid : ValidCheckpoint declaredAtoms (entries.map canonicalEntry)) :
    ValidCheckpoint declaredAtoms entries where
  count := by
    have := valid.count
    rwa [length_map] at this
  scopes := by
    have := valid.scopes
    rwa [map_map] at this
  entry entry mem := by
    obtain ⟨own, encodable⟩ := valid.entry _ (mem_map_of_mem mem)
    exact ⟨{ own with }, encodable_of_canonical entry.value encodable (keeps entry mem)⟩
  values := by
    have enough := valid.values
    rw [itemsValues_eq, map_map, map_map] at enough
    rw [itemsValues_eq, map_map]
    refine Nat.le_trans (Nat.le_of_eq (congrArg List.sum (map_congr_left fun entry mem => ?_)))
      enough
    exact congrArg (1 + ·) (keeps entry mem).symm

theorem canonicalStore_exportSnapshot (store : Store) :
    (canonicalStore store).exportSnapshot = store.exportSnapshot.map canonicalEntry := by
  unfold exportSnapshot valuesOf canonicalStore
  rw [ExtTreeMap.toList_map, map_map, map_map]
  rfl

/-- What is written comes back in canonical form. -/
theorem restore_of_checkpoint (keyed : store.Keyed) {maximum : Nat} {bytes : Bytes}
    (run : checkpoint store declaredAtoms maximum = .ok bytes) :
    decodeTetfCheckpoint bytes declaredAtoms = .ok (canonicalStore store).exportSnapshot ∧
      restore bytes declaredAtoms = .ok (canonicalStore store) := by
  have decoded := (roundTrips_logicalCheckpoint declaredAtoms maximum).decodes _ _ run
  obtain ⟨valid, -, -⟩ := encodeTetfCheckpoint_ok_iff.mp run
  have kept := (keeps_checkpoint valid).1
  rw [canonicalCheckpoint_exportSnapshot keyed] at decoded kept
  refine ⟨decoded, ?_⟩
  unfold restore
  rw [decoded]
  exact importSnapshot_exportSnapshot (canonicalStore_keyed keyed) kept

/-- A store comes back with its values in canonical form. Where no set item is dropped, the
encoder refuses exactly the stores whose encoding the decoder refuses. -/
theorem checkpoint_restores {store : Store} (reachable : store.Reachable)
    (declaredAtoms : List String) :
    (∀ maximum bytes, checkpoint store declaredAtoms maximum = .ok bytes →
        restore bytes declaredAtoms = .ok (canonicalStore store)) ∧
      ((∀ entry ∈ store.exportSnapshot, KeepsItems entry.value) →
        ((∃ message, checkpoint store declaredAtoms maxCheckpointBytes = .error message) ↔
          decodeTetfCheckpoint (checkpointEncoding store.exportSnapshot) declaredAtoms ≠
            .ok (canonicalStore store).exportSnapshot)) := by
  have keyed := reachable.keyed
  refine ⟨fun maximum bytes run => (restore_of_checkpoint keyed run).2, fun keeps => ?_⟩
  constructor
  · rintro ⟨message, refused⟩ decoded
    obtain ⟨⟨valid, -⟩, -, fits⟩ := decodeTetfCheckpoint_ok_iff.mp decoded
    rw [canonicalStore_exportSnapshot] at valid
    have accepted : checkpoint store declaredAtoms maxCheckpointBytes =
        .ok (checkpointEncoding store.exportSnapshot) :=
      encodeTetfCheckpoint_ok_iff.mpr ⟨validCheckpoint_of_canonical keeps valid, rfl, fits, fits⟩
    rw [refused] at accepted
    cases accepted
  · intro refused
    cases run : checkpoint store declaredAtoms maxCheckpointBytes with
    | error message => exact ⟨message, rfl⟩
    | ok bytes =>
      have decoded := (restore_of_checkpoint keyed run).1
      obtain ⟨-, rfl, -⟩ := encodeTetfCheckpoint_ok_iff.mp run
      exact absurd decoded refused

/-- The entry of a store that holds one set. -/
def setEntry (items : List ReplValue) : Entry where
  scope := ⟨"rooms", "seats"⟩
  ownerNodeId := "node-a"
  value := .set items
  version := ⟨1, "node-a"⟩
  policy := .lastWriterWins

def setStore (items : List ReplValue) : Store := (writeEntry ⟨∅⟩ (setEntry items)).1

variable (items : List ReplValue)

theorem setStore_reachable : (setStore items).Reachable :=
  .written (setEntry items) .new

theorem setStore_entries : (setStore items).entries =
      (∅ : ExtTreeMap VmDistributedStateScope Entry).insert ⟨"rooms", "seats"⟩ (setEntry items) := by
  unfold setStore writeEntry write
  have named : "node-a" ≠ "" := by decide
  rw [if_neg (show ¬ (setEntry items).ownerNodeId = "" from named), ExtTreeMap.getElem?_empty]
  rfl

theorem exportSnapshot_setStore : (setStore items).exportSnapshot = [setEntry items] := by
  unfold exportSnapshot valuesOf
  rw [setStore_entries]
  rfl

theorem validEntry_setEntry : ValidEntry (setEntry []) where
  stateNamespace := by decide
  key := by decide
  owner := by decide
  node := by decide
  sequence := by decide
  sequenceFits := by decide
  stateNamespaceFits := Nat.le_of_ble_eq_true rfl
  keyFits := Nat.le_of_ble_eq_true rfl
  ownerFits := Nat.le_of_ble_eq_true rfl
  nodeFits := Nat.le_of_ble_eq_true rfl

theorem encodable_setEntry {items : List ReplValue} (leaves : ∀ item ∈ items, Encodable [] 127 item)
    (fits : FitsLength (uniqueItems items).length) :
    ∀ entry ∈ [setEntry items], ValidEntry entry ∧ Encodable [] maxNestingDepth entry.value :=
  forall_mem_singleton.mpr
    ⟨{ validEntry_setEntry with }, .set 127 items fits leaves⟩

theorem validCheckpoint_setEntry {items : List ReplValue}
    (leaves : ∀ item ∈ items, Encodable [] 127 item)
    (fits : FitsLength (uniqueItems items).length) (enough : 1 + itemsValues items ≤ maxValues) :
    ValidCheckpoint [] [setEntry items] where
  count := Nat.le_of_ble_eq_true rfl
  scopes := nodup_singleton _
  entry := encodable_setEntry leaves fits
  values := enough

theorem checkpoint_unsorted : checkpoint (setStore [.int 2, .int 1]) [] maxCheckpointBytes =
      .ok (checkpointEncoding [setEntry [.int 2, .int 1]]) := by
  unfold checkpoint
  rw [exportSnapshot_setStore]
  refine encodeTetfCheckpoint_ok_iff.mpr
    ⟨validCheckpoint_setEntry ?_ (Nat.le_of_ble_eq_true rfl) (by decide), rfl, by decide, by decide⟩
  exact forall_mem_cons.mpr ⟨.int _ _, forall_mem_singleton.mpr (.int _ _)⟩

theorem checkpoint_restores_unsorted : restore (checkpointEncoding [setEntry [.int 2, .int 1]]) [] =
      .ok (canonicalStore (setStore [.int 2, .int 1])) :=
  (checkpoint_restores (setStore_reachable [.int 2, .int 1]) []).1 _ _ checkpoint_unsorted

theorem uniqueItems_replicate (n : Nat) : uniqueItems (List.replicate (n + 1) .unit) = [.unit] := by
  induction n with
  | zero => rfl
  | succ n ih =>
    unfold uniqueItems sortUnique at ih ⊢
    rw [replicate_succ, foldr_cons, ih]
    rfl

theorem itemsValues_replicate (n : Nat) : itemsValues (List.replicate n .unit) = n := by
  induction n with
  | zero => rfl
  | succ n ih =>
    rw [replicate_succ, itemsValues, ih]
    exact Nat.add_comm 1 n

/-- The encoding drops repeated items, so that the decoder accepts it. -/
theorem decode_repeated (n : Nat) :
    decodeTetfCheckpoint (checkpointEncoding [setEntry (List.replicate (n + 1) .unit)]) [] =
      .ok [setEntry [.unit]] := by
  have same : checkpointEncoding [setEntry (List.replicate (n + 1) .unit)] =
      checkpointEncoding [setEntry [.unit]] := by
    have value : encoding (.set (List.replicate (n + 1) .unit)) = encoding (.set [.unit]) := by
      rw [encoding_set, encoding_set, uniqueItems_replicate]
      rfl
    have field : entryField (setEntry (List.replicate (n + 1) .unit)) = entryField (setEntry [.unit]) :=
      congrArg (fun bytes => textField "rooms" ++ textField "seats" ++ textField "node-a" ++
        beBytes 8 1 ++ textField "node-a" ++ policyTag .lastWriterWins :: bytes) value
    exact congrArg (fun bytes => header profileLogicalCheckpoint ++ beBytes 4 1 ++ (bytes ++ [])) field
  rw [same]
  have valid : ValidCheckpoint [] [setEntry [.unit]] :=
    validCheckpoint_setEntry (forall_mem_singleton.mpr (.unit 126))
      (Nat.le_of_ble_eq_true rfl) (by decide)
  exact decodeTetfCheckpoint_ok_iff.mpr ⟨⟨valid, rfl⟩, rfl, by decide⟩

/-- A set that repeats an item counts each repetition. -/
theorem refuses_repeated {n : Nat} (many : maxValues ≤ n) :
    ∃ message, checkpoint (setStore (List.replicate n .unit)) [] maxCheckpointBytes =
      .error message := by
  cases run : checkpoint (setStore (List.replicate n .unit)) [] maxCheckpointBytes with
  | error message => exact ⟨message, rfl⟩
  | ok bytes =>
    have enough := (encodeTetfCheckpoint_ok_iff.mp run).1.values
    rw [exportSnapshot_setStore] at enough
    change 1 + itemsValues (List.replicate n .unit) + 0 ≤ maxValues at enough
    rw [itemsValues_replicate] at enough
    omega

/-- A set comes back sorted, and a set that repeats an item too often has no checkpoint although
its encoding can be restored. -/
theorem checkpoint_drops : (checkpoint (setStore [.int 2, .int 1]) [] maxCheckpointBytes =
        .ok (checkpointEncoding [setEntry [.int 2, .int 1]]) ∧
      restore (checkpointEncoding [setEntry [.int 2, .int 1]]) [] ≠
        .ok (setStore [.int 2, .int 1])) ∧
    (∃ message, checkpoint (setStore (List.replicate 65536 .unit)) [] maxCheckpointBytes =
      .error message) ∧ decodeTetfCheckpoint
        (checkpointEncoding (setStore (List.replicate 65536 .unit)).exportSnapshot) [] =
      .ok [setEntry [.unit]] := by
  refine ⟨⟨checkpoint_unsorted, ?_⟩, refuses_repeated (Nat.le_refl maxValues), ?_⟩
  · have restored := (restore_of_checkpoint (setStore_reachable _).keyed checkpoint_unsorted).2
    rw [restored]
    intro same
    have held : (canonicalStore (setStore [.int 2, .int 1])).exportSnapshot.map (·.value) =
        (setStore [.int 2, .int 1]).exportSnapshot.map (·.value) :=
      congrArg (fun store : Store => store.exportSnapshot.map (·.value)) (Except.ok.inj same)
    rw [canonicalStore_exportSnapshot, exportSnapshot_setStore] at held
    have sorted : canonical (.set [.int 2, .int 1]) = .set [.int 1, .int 2] := rfl
    have items := ReplValue.set.inj (sorted.symm.trans (List.cons.inj held).1)
    have first : (1 : Int64) = 2 := ReplValue.int.inj (List.cons.inj items).1
    exact absurd first (by decide)
  · rw [exportSnapshot_setStore]
    exact decode_repeated 65535

end Checkpoints

end Terlan.TermFormat
