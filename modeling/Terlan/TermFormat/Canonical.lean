/-
  What the term format means, without buffers, cursors or budgets: the one encoding of a
  value, the canonical value that it stands for, and which values have an encoding at all.

  The encoder and the decoder are compared with these three. `canonical_canonical`,
  `encoding_canonical` and `encodable_canonical` say that canonical values are exactly
  what an encoding keeps of a value.
-/
import Mathlib.Algebra.Order.BigOperators.Group.List
import Terlan.TermFormat.Encode

namespace Terlan.TermFormat

open Terlan.Lib List

/-! ## Encoding -/

/-- A text field: its length and its UTF-8 bytes. -/
def textField (text : String) : Bytes := beBytes 4 (asBytes text).length ++ asBytes text

mutual

def encoding : ReplValue → Bytes
  | .closure _ _ _ => []
  | .unit => [tagUnit]
  | .bool false => [tagFalse]
  | .bool true => [tagTrue]
  | .int value => tagInt :: beBytes 8 value.toUInt64.toNat
  | .float text => tagFloatText :: textField text
  | .string text => tagString :: textField text
  | .stringBytes bytes => tagString :: beBytes 4 bytes.length ++ bytes
  | .bytes bytes => tagBytes :: beBytes 4 bytes.length ++ bytes
  | .bitString value =>
    tagBitstring :: beBytes 4 value.bitLen ++ beBytes 4 value.bytes.length ++ value.bytes
  | .atom name => tagAtom :: textField name
  | .tuple items => tagTuple :: beBytes 4 items.length ++ (encodings items).flatten
  | .list items => tagList :: beBytes 4 items.length ++ (encodings items).flatten
  | .record name fields =>
    tagRecord :: textField name ++ beBytes 4 fields.length ++
      (sortByKey Prod.fst (fieldEncodings fields)).flatMap fun field =>
        textField field.1 ++ field.2
  | .map entries =>
    tagMap :: beBytes 4 entries.length ++
      (sortByKey Prod.fst (entryEncodings entries)).flatMap fun entry => entry.1 ++ entry.2
  | .set items =>
    tagSet :: beBytes 4 (sortUnique id (encodings items)).length ++
      (sortUnique id (encodings items)).flatten

def encodings : List ReplValue → List Bytes
  | [] => []
  | item :: items => encoding item :: encodings items

def fieldEncodings : List (String × ReplValue) → List (String × Bytes)
  | [] => []
  | (field, value) :: fields => (field, encoding value) :: fieldEncodings fields

def entryEncodings : List (ReplValue × ReplValue) → List (Bytes × Bytes)
  | [] => []
  | (key, value) :: entries => (encoding key, encoding value) :: entryEncodings entries

end

variable (items : List ReplValue)

theorem encodings_eq : encodings items = items.map encoding := by
  induction items with
  | nil => rfl
  | cons item items ih => rw [encodings, ih, map_cons]

variable (fields : List (String × ReplValue))

theorem fieldEncodings_eq :
    fieldEncodings fields = fields.map fun field => (field.1, encoding field.2) := by
  induction fields with
  | nil => rfl
  | cons field fields ih => rw [fieldEncodings, ih, map_cons]

variable (entries : List (ReplValue × ReplValue))

theorem entryEncodings_eq :
    entryEncodings entries = entries.map fun entry => (encoding entry.1, encoding entry.2) := by
  induction entries with
  | nil => rfl
  | cons entry entries ih => rw [entryEncodings, ih, map_cons]

/-- Fields in the order of their names. -/
def sortedFields (fields : List (String × ReplValue)) : List (String × ReplValue) :=
  sortByKey Prod.fst fields

/-- Entries in the order of their encoded keys. -/
def sortedEntries (entries : List (ReplValue × ReplValue)) : List (ReplValue × ReplValue) :=
  sortByKey (fun entry => encoding entry.1) entries

/-- One item for each encoding, in the order of the encodings. -/
def uniqueItems (items : List ReplValue) : List ReplValue := sortUnique encoding items

theorem encoding_tuple :
    encoding (.tuple items) = tagTuple :: beBytes 4 items.length ++ items.flatMap encoding := by
  rw [encoding, encodings_eq, flatMap_def]

theorem encoding_list :
    encoding (.list items) = tagList :: beBytes 4 items.length ++ items.flatMap encoding := by
  rw [encoding, encodings_eq, flatMap_def]

theorem encoding_record (name : String) (fields : List (String × ReplValue)) :
    encoding (.record name fields) = tagRecord :: textField name ++ beBytes 4 fields.length ++
        (sortedFields fields).flatMap fun field => textField field.1 ++ encoding field.2 := by
  rw [encoding, fieldEncodings_eq, sortByKey_map, flatMap_map]
  rfl

theorem encoding_map : encoding (.map entries) = tagMap :: beBytes 4 entries.length ++
        (sortedEntries entries).flatMap fun entry => encoding entry.1 ++ encoding entry.2 := by
  rw [encoding, entryEncodings_eq, sortByKey_map, flatMap_map]
  rfl

theorem encoding_set : encoding (.set items) =
      tagSet :: beBytes 4 (uniqueItems items).length ++ (uniqueItems items).flatMap encoding := by
  rw [encoding, encodings_eq, sortUnique_map, length_map, ← flatMap_def]
  rfl

/-! ## Canonical values -/

mutual

/-- The value that an encoding stands for: text for string bytes, sorted fields, entries
sorted by their encoded keys, and a set's items without repetition, sorted likewise. -/
def canonical : ReplValue → ReplValue
  | .stringBytes bytes =>
    match fromUtf8 bytes with
    | some text => .string text
    | none => .stringBytes bytes
  | .tuple items => .tuple (canonicals items)
  | .list items => .list (canonicals items)
  | .record name fields => .record name (sortByKey Prod.fst (canonicalFields fields))
  | .map entries => .map ((sortByKey Prod.fst (canonicalEntries entries)).map Prod.snd)
  | .set items => .set ((sortUnique Prod.fst (canonicalItems items)).map Prod.snd)
  | .unit => .unit
  | .int value => .int value
  | .float text => .float text
  | .string text => .string text
  | .bytes bytes => .bytes bytes
  | .bitString value => .bitString value
  | .atom name => .atom name
  | .bool value => .bool value
  | .closure callableId types captures => .closure callableId types captures

def canonicals : List ReplValue → List ReplValue
  | [] => []
  | item :: items => canonical item :: canonicals items

def canonicalFields : List (String × ReplValue) → List (String × ReplValue)
  | [] => []
  | (field, value) :: fields => (field, canonical value) :: canonicalFields fields

/-- Each canonical entry with its encoded key. -/
def canonicalEntries :
    List (ReplValue × ReplValue) → List (Bytes × (ReplValue × ReplValue))
  | [] => []
  | (key, value) :: entries =>
    (encoding key, (canonical key, canonical value)) :: canonicalEntries entries

/-- Each canonical item with its encoding. -/
def canonicalItems : List ReplValue → List (Bytes × ReplValue)
  | [] => []
  | item :: items => (encoding item, canonical item) :: canonicalItems items

end

theorem canonicals_eq : canonicals items = items.map canonical := by
  induction items with
  | nil => rfl
  | cons item items ih => rw [canonicals, ih, map_cons]

theorem canonicalFields_eq :
    canonicalFields fields = fields.map fun field => (field.1, canonical field.2) := by
  induction fields with
  | nil => rfl
  | cons field fields ih => rw [canonicalFields, ih, map_cons]

theorem canonicalEntries_eq : canonicalEntries entries =
      entries.map fun entry => (encoding entry.1, (canonical entry.1, canonical entry.2)) := by
  induction entries with
  | nil => rfl
  | cons entry entries ih => rw [canonicalEntries, ih, map_cons]

theorem canonicalItems_eq :
    canonicalItems items = items.map fun item => (encoding item, canonical item) := by
  induction items with
  | nil => rfl
  | cons item items ih => rw [canonicalItems, ih, map_cons]

theorem canonical_tuple : canonical (.tuple items) = .tuple (items.map canonical) := by
  rw [canonical, canonicals_eq]

theorem canonical_list : canonical (.list items) = .list (items.map canonical) := by
  rw [canonical, canonicals_eq]

theorem canonical_record (name : String) (fields : List (String × ReplValue)) :
    canonical (.record name fields) =
      .record name ((sortedFields fields).map fun field => (field.1, canonical field.2)) := by
  rw [canonical, canonicalFields_eq, sortByKey_map]
  rfl

theorem canonical_map : canonical (.map entries) =
      .map ((sortedEntries entries).map fun entry => (canonical entry.1, canonical entry.2)) := by
  rw [canonical, canonicalEntries_eq, sortByKey_map, map_map]
  rfl

theorem canonical_set : canonical (.set items) = .set ((uniqueItems items).map canonical) := by
  rw [canonical, canonicalItems_eq, sortUnique_map, map_map]
  rfl

/-! ## Values that have an encoding -/

/-- A length that fits the 32-bit length fields. -/
def FitsLength (len : Nat) : Prop := len < 2 ^ 32

/-- A record field name that may leave the node. -/
structure FieldName (field : String) : Prop where
  nonblank : isBlank field = false
  portable : isNativeField field = false
  length : FitsLength (asBytes field).length

theorem validateTextField_ok_iff {field value : String} :
    validateTextField field value = .ok () ↔ isBlank value = false := by
  unfold validateTextField
  split <;> simp_all

theorem validateRecordField_ok_iff {field : String} :
    validateRecordField field = .ok () ↔ isBlank field = false ∧ isNativeField field = false := by
  unfold validateRecordField
  rw [check_bind_ok_iff, validateTextField_ok_iff, failIf_ok_iff, Bool.not_eq_true]

/-- The value has an encoding under the atom manifest within `levels` levels of nesting. -/
inductive Encodable (declaredAtoms : List String) : Nat → ReplValue → Prop
  | unit (levels : Nat) : Encodable declaredAtoms (levels + 1) .unit
  | bool (levels : Nat) (value : Bool) : Encodable declaredAtoms (levels + 1) (.bool value)
  | int (levels : Nat) (value : Int64) : Encodable declaredAtoms (levels + 1) (.int value)
  | float (levels : Nat) (text : String) (fits : FitsLength (asBytes text).length) :
      Encodable declaredAtoms (levels + 1) (.float text)
  | string (levels : Nat) (text : String) (fits : FitsLength (asBytes text).length) :
      Encodable declaredAtoms (levels + 1) (.string text)
  | stringBytes (levels : Nat) (bytes : Bytes) (text : String) (utf8 : fromUtf8 bytes = some text)
      (fits : FitsLength bytes.length) : Encodable declaredAtoms (levels + 1) (.stringBytes bytes)
  | bytes (levels : Nat) (bytes : Bytes) (fits : FitsLength bytes.length) :
      Encodable declaredAtoms (levels + 1) (.bytes bytes)
  | bitString (levels : Nat) (value : VmBitString) (fits : FitsLength value.bitLen) :
      Encodable declaredAtoms (levels + 1) (.bitString value)
  | atom (levels : Nat) (name : String) (declared : name ∈ declaredAtoms)
      (fits : FitsLength (asBytes name).length) : Encodable declaredAtoms (levels + 1) (.atom name)
  | tuple (levels : Nat) (items : List ReplValue) (fits : FitsLength items.length)
      (nested : ∀ item ∈ items, Encodable declaredAtoms levels item) :
      Encodable declaredAtoms (levels + 1) (.tuple items)
  | list (levels : Nat) (items : List ReplValue) (fits : FitsLength items.length)
      (nested : ∀ item ∈ items, Encodable declaredAtoms levels item) :
      Encodable declaredAtoms (levels + 1) (.list items)
  | record (levels : Nat) (name : String) (fields : List (String × ReplValue))
      (named : isBlank name = false) (nameFits : FitsLength (asBytes name).length)
      (fits : FitsLength fields.length) (distinct : (fields.map Prod.fst).Nodup)
      (names : ∀ field ∈ fields, FieldName field.1)
      (nested : ∀ field ∈ fields, Encodable declaredAtoms levels field.2) :
      Encodable declaredAtoms (levels + 1) (.record name fields)
  | map (levels : Nat) (entries : List (ReplValue × ReplValue)) (fits : FitsLength entries.length)
      (distinct : (entries.map fun entry => encoding entry.1).Nodup)
      (keys : ∀ entry ∈ entries, Encodable declaredAtoms levels entry.1)
      (values : ∀ entry ∈ entries, Encodable declaredAtoms levels entry.2) :
      Encodable declaredAtoms (levels + 1) (.map entries)
  | set (levels : Nat) (items : List ReplValue) (fits : FitsLength (uniqueItems items).length)
      (nested : ∀ item ∈ items, Encodable declaredAtoms levels item) :
      Encodable declaredAtoms (levels + 1) (.set items)

section Inversion

variable {declaredAtoms : List String} {levels : Nat}

theorem encodable_unit_iff : Encodable declaredAtoms levels .unit ↔ 0 < levels :=
  ⟨fun h => by cases h; omega, fun h => by
    obtain ⟨levels, rfl⟩ := Nat.exists_eq_add_one.mpr h
    exact .unit levels⟩

theorem encodable_bool_iff {value : Bool} :
    Encodable declaredAtoms levels (.bool value) ↔ 0 < levels :=
  ⟨fun h => by cases h; omega, fun h => by
    obtain ⟨levels, rfl⟩ := Nat.exists_eq_add_one.mpr h
    exact .bool levels value⟩

theorem encodable_int_iff {value : Int64} :
    Encodable declaredAtoms levels (.int value) ↔ 0 < levels :=
  ⟨fun h => by cases h; omega, fun h => by
    obtain ⟨levels, rfl⟩ := Nat.exists_eq_add_one.mpr h
    exact .int levels value⟩

theorem encodable_float_iff {text : String} : Encodable declaredAtoms levels (.float text) ↔
      0 < levels ∧ FitsLength (asBytes text).length :=
  ⟨fun h => by cases h with | float _ _ fits => exact ⟨by omega, fits⟩, fun ⟨h, fits⟩ => by
    obtain ⟨levels, rfl⟩ := Nat.exists_eq_add_one.mpr h
    exact .float levels text fits⟩

theorem encodable_string_iff {text : String} : Encodable declaredAtoms levels (.string text) ↔
      0 < levels ∧ FitsLength (asBytes text).length :=
  ⟨fun h => by cases h with | string _ _ fits => exact ⟨by omega, fits⟩, fun ⟨h, fits⟩ => by
    obtain ⟨levels, rfl⟩ := Nat.exists_eq_add_one.mpr h
    exact .string levels text fits⟩

theorem encodable_stringBytes_iff {bytes : Bytes} :
    Encodable declaredAtoms levels (.stringBytes bytes) ↔
      0 < levels ∧ (∃ text, fromUtf8 bytes = some text) ∧ FitsLength bytes.length :=
  ⟨fun h => by
    cases h with | stringBytes _ _ text utf8 fits => exact ⟨by omega, ⟨text, utf8⟩, fits⟩,
   fun ⟨h, ⟨text, utf8⟩, fits⟩ => by
    obtain ⟨levels, rfl⟩ := Nat.exists_eq_add_one.mpr h
    exact .stringBytes levels bytes text utf8 fits⟩

theorem encodable_bytes_iff {bytes : Bytes} :
    Encodable declaredAtoms levels (.bytes bytes) ↔ 0 < levels ∧ FitsLength bytes.length :=
  ⟨fun h => by cases h with | bytes _ _ fits => exact ⟨by omega, fits⟩, fun ⟨h, fits⟩ => by
    obtain ⟨levels, rfl⟩ := Nat.exists_eq_add_one.mpr h
    exact .bytes levels bytes fits⟩

theorem encodable_bitString_iff {value : VmBitString} :
    Encodable declaredAtoms levels (.bitString value) ↔ 0 < levels ∧ FitsLength value.bitLen :=
  ⟨fun h => by cases h with | bitString _ _ fits => exact ⟨by omega, fits⟩, fun ⟨h, fits⟩ => by
    obtain ⟨levels, rfl⟩ := Nat.exists_eq_add_one.mpr h
    exact .bitString levels value fits⟩

theorem encodable_atom_iff {name : String} : Encodable declaredAtoms levels (.atom name) ↔
      0 < levels ∧ name ∈ declaredAtoms ∧ FitsLength (asBytes name).length :=
  ⟨fun h => by cases h with | atom _ _ declared fits => exact ⟨by omega, declared, fits⟩,
   fun ⟨h, declared, fits⟩ => by
    obtain ⟨levels, rfl⟩ := Nat.exists_eq_add_one.mpr h
    exact .atom levels name declared fits⟩

variable {items : List ReplValue}

theorem encodable_tuple_iff : Encodable declaredAtoms levels (.tuple items) ↔
      0 < levels ∧ FitsLength items.length ∧
        ∀ item ∈ items, Encodable declaredAtoms (levels - 1) item :=
  ⟨fun h => by cases h with | tuple _ _ fits nested => exact ⟨by omega, fits, nested⟩,
   fun ⟨h, fits, nested⟩ => by
    obtain ⟨levels, rfl⟩ := Nat.exists_eq_add_one.mpr h
    exact .tuple levels items fits nested⟩

theorem encodable_list_iff : Encodable declaredAtoms levels (.list items) ↔
      0 < levels ∧ FitsLength items.length ∧
        ∀ item ∈ items, Encodable declaredAtoms (levels - 1) item :=
  ⟨fun h => by cases h with | list _ _ fits nested => exact ⟨by omega, fits, nested⟩,
   fun ⟨h, fits, nested⟩ => by
    obtain ⟨levels, rfl⟩ := Nat.exists_eq_add_one.mpr h
    exact .list levels items fits nested⟩

theorem encodable_record_iff {name : String} {fields : List (String × ReplValue)} :
    Encodable declaredAtoms levels (.record name fields) ↔
      0 < levels ∧ isBlank name = false ∧ FitsLength (asBytes name).length ∧
        FitsLength fields.length ∧ (fields.map Prod.fst).Nodup ∧
          ∀ field ∈ fields, FieldName field.1 ∧ Encodable declaredAtoms (levels - 1) field.2 :=
  ⟨fun h => by
    cases h with
    | record _ _ _ named nameFits fits distinct names nested =>
      exact ⟨by omega, named, nameFits, fits, distinct, fun f m => ⟨names f m, nested f m⟩⟩,
   fun ⟨h, named, nameFits, fits, distinct, fields_ok⟩ => by
    obtain ⟨levels, rfl⟩ := Nat.exists_eq_add_one.mpr h
    exact .record levels name fields named nameFits fits distinct (fun f m => (fields_ok f m).1)
      fun f m => (fields_ok f m).2⟩

theorem encodable_map_iff {entries : List (ReplValue × ReplValue)} :
    Encodable declaredAtoms levels (.map entries) ↔
      0 < levels ∧ FitsLength entries.length ∧
        (entries.map fun entry => encoding entry.1).Nodup ∧
          (∀ entry ∈ entries, Encodable declaredAtoms (levels - 1) entry.1) ∧
            ∀ entry ∈ entries, Encodable declaredAtoms (levels - 1) entry.2 :=
  ⟨fun h => by
    cases h with
    | map _ _ fits distinct keys values => exact ⟨by omega, fits, distinct, keys, values⟩,
   fun ⟨h, fits, distinct, keys, values⟩ => by
    obtain ⟨levels, rfl⟩ := Nat.exists_eq_add_one.mpr h
    exact .map levels entries fits distinct keys values⟩

theorem encodable_set_iff : Encodable declaredAtoms levels (.set items) ↔
      0 < levels ∧ FitsLength (uniqueItems items).length ∧
        ∀ item ∈ items, Encodable declaredAtoms (levels - 1) item :=
  ⟨fun h => by cases h with | set _ _ fits nested => exact ⟨by omega, fits, nested⟩,
   fun ⟨h, fits, nested⟩ => by
    obtain ⟨levels, rfl⟩ := Nat.exists_eq_add_one.mpr h
    exact .set levels items fits nested⟩

end Inversion

theorem asBytes_nonblank {text : String} (h : isBlank text = false) :
    0 < (asBytes text).length := by
  apply Nat.pos_of_ne_zero
  intro empty
  have eq : text = "" := asBytes_injective (eq_nil_of_length_eq_zero empty)
  rw [eq] at h
  cases h

theorem length_textField (text : String) : (textField text).length = 4 + (asBytes text).length := by
  simp [textField]

theorem length_flatMap_ge {α : Type} {l : List α} {f : α → Bytes} {n : Nat}
    (h : ∀ a ∈ l, n ≤ (f a).length) : n * l.length ≤ (l.flatMap f).length := by
  induction l with
  | nil => simp
  | cons a l ih =>
    have head := h a mem_cons_self
    have tail := ih fun b mem => h b (mem_cons_of_mem _ mem)
    rw [flatMap_cons, length_append, length_cons, Nat.mul_succ]
    omega

variable {declaredAtoms : List String}

theorem Encodable.levels_eq {levels : Nat} {value : ReplValue}
    (h : Encodable declaredAtoms levels value) : ∃ below, levels = below + 1 := by
  cases h <;> exact ⟨_, rfl⟩

theorem encoding_ne_nil {levels : Nat} {value : ReplValue}
    (h : Encodable declaredAtoms levels value) : 0 < (encoding value).length := by
  cases h with
  | bool levels value => cases value <;> simp [encoding]
  | _ => simp [encoding]

/-! ## Canonical values are what encodings keep -/

section Canonical

variable {declaredAtoms : List String}

theorem sortedFields_strict {fields : List (String × ReplValue)}
    (distinct : (fields.map Prod.fst).Nodup) : (sortedFields fields).Pairwise (KeyLT Prod.fst) :=
  sortByKey_strict_iff.mpr distinct

theorem sortedEntries_strict {entries : List (ReplValue × ReplValue)}
    (distinct : (entries.map fun entry => encoding entry.1).Nodup) :
    (sortedEntries entries).Pairwise (KeyLT fun entry => encoding entry.1) :=
  sortByKey_strict_iff.mpr distinct

theorem uniqueItems_strict (items : List ReplValue) :
    (uniqueItems items).Pairwise (KeyLT encoding) :=
  sortUnique_sorted encoding items

/-- The three facts about a value that its encoding does not distinguish from its canonical
form. They are proved together, over the nesting of the value. -/
structure KeepsCanonical (declaredAtoms : List String) (levels : Nat) (value : ReplValue) :
    Prop where
  same : encoding (canonical value) = encoding value
  again : canonical (canonical value) = canonical value
  encodable : Encodable declaredAtoms levels (canonical value)

variable {levels : Nat}

theorem keepsCanonical_items {items : List ReplValue}
    (nested : ∀ item ∈ items, KeepsCanonical declaredAtoms levels item) :
    (items.map canonical).flatMap encoding = items.flatMap encoding ∧
      (items.map canonical).map canonical = items.map canonical ∧
        ∀ item ∈ items.map canonical, Encodable declaredAtoms levels item := by
  refine ⟨?_, ?_, ?_⟩
  · rw [flatMap_map]
    exact flatMap_congr fun item mem => (nested item mem).same
  · rw [map_map]
    exact map_congr_left fun item mem => (nested item mem).again
  · exact forall_mem_map.mpr fun item mem => (nested item mem).encodable

theorem keepsCanonical_record {name : String} {fields : List (String × ReplValue)}
    (distinct : (fields.map Prod.fst).Nodup) (named : isBlank name = false)
    (nameFits : FitsLength (asBytes name).length) (fits : FitsLength fields.length)
    (names : ∀ field ∈ fields, FieldName field.1)
    (nested : ∀ field ∈ fields, KeepsCanonical declaredAtoms levels field.2) :
    KeepsCanonical declaredAtoms (levels + 1) (.record name fields) := by
  have strict := sortedFields_strict distinct
  have mem : ∀ field ∈ sortedFields fields, field ∈ fields := fun _ h => mem_sortByKey.mp h
  have strict' : ((sortedFields fields).map fun field => (field.1, canonical field.2)).Pairwise
      (KeyLT Prod.fst) := pairwise_keyLT_map (fun _ _ => rfl) strict
  have sorted : sortedFields ((sortedFields fields).map fun field => (field.1, canonical field.2)) =
      (sortedFields fields).map fun field => (field.1, canonical field.2) :=
    sortByKey_eq_self strict'
  have length : ((sortedFields fields).map fun field => (field.1, canonical field.2)).length =
      fields.length := by
    rw [length_map]
    exact length_sortByKey _ _
  refine ⟨?_, ?_, ?_⟩
  · rw [canonical_record, encoding_record, encoding_record, sorted, length, flatMap_map]
    congr 1
    exact flatMap_congr fun field h => by rw [(nested field (mem field h)).same]
  · rw [canonical_record, canonical_record, sorted, map_map]
    congr 1
    exact map_congr_left fun field h => by
      simp only [Function.comp, (nested field (mem field h)).again]
  · rw [canonical_record]
    refine .record levels name _ named nameFits (by rwa [length]) ?_ ?_ ?_
    · exact pairwise_map.mpr (strict'.imp fun lt => keyLT_irrefl Prod.fst lt)
    · exact forall_mem_map.mpr fun field h => names field (mem field h)
    · exact forall_mem_map.mpr fun field h => (nested field (mem field h)).encodable

theorem keepsCanonical_map {entries : List (ReplValue × ReplValue)}
    (distinct : (entries.map fun entry => encoding entry.1).Nodup)
    (fits : FitsLength entries.length)
    (keys : ∀ entry ∈ entries, KeepsCanonical declaredAtoms levels entry.1)
    (values : ∀ entry ∈ entries, KeepsCanonical declaredAtoms levels entry.2) :
    KeepsCanonical declaredAtoms (levels + 1) (.map entries) := by
  have strict := sortedEntries_strict distinct
  have mem : ∀ entry ∈ sortedEntries entries, entry ∈ entries := fun _ h => mem_sortByKey.mp h
  have strict' : ((sortedEntries entries).map fun entry =>
      (canonical entry.1, canonical entry.2)).Pairwise (KeyLT fun entry => encoding entry.1) :=
    pairwise_keyLT_map (fun entry h => (keys entry (mem entry h)).same) strict
  have sorted : sortedEntries ((sortedEntries entries).map fun entry =>
      (canonical entry.1, canonical entry.2)) =
      (sortedEntries entries).map fun entry => (canonical entry.1, canonical entry.2) :=
    sortByKey_eq_self strict'
  have length : ((sortedEntries entries).map fun entry =>
      (canonical entry.1, canonical entry.2)).length = entries.length := by
    rw [length_map]
    exact length_sortByKey _ _
  refine ⟨?_, ?_, ?_⟩
  · rw [canonical_map, encoding_map, encoding_map, sorted, length, flatMap_map]
    congr 1
    exact flatMap_congr fun entry h => by
      rw [(keys entry (mem entry h)).same, (values entry (mem entry h)).same]
  · rw [canonical_map, canonical_map, sorted, map_map]
    congr 1
    exact map_congr_left fun entry h => by
      simp only [Function.comp, (keys entry (mem entry h)).again,
        (values entry (mem entry h)).again]
  · rw [canonical_map]
    refine .map levels _ (by rwa [length]) ?_ ?_ ?_
    · exact pairwise_map.mpr (strict'.imp fun lt => keyLT_irrefl _ lt)
    · exact forall_mem_map.mpr fun entry h => (keys entry (mem entry h)).encodable
    · exact forall_mem_map.mpr fun entry h => (values entry (mem entry h)).encodable

theorem keepsCanonical_set {items : List ReplValue} (fits : FitsLength (uniqueItems items).length)
    (nested : ∀ item ∈ items, KeepsCanonical declaredAtoms levels item) :
    KeepsCanonical declaredAtoms (levels + 1) (.set items) := by
  have nested : ∀ item ∈ uniqueItems items, KeepsCanonical declaredAtoms levels item :=
    fun item h => nested item (mem_of_mem_sortUnique h)
  have strict' : ((uniqueItems items).map canonical).Pairwise (KeyLT encoding) :=
    pairwise_keyLT_map (fun item h => (nested item h).same) (uniqueItems_strict items)
  have unique : uniqueItems ((uniqueItems items).map canonical) =
      (uniqueItems items).map canonical := sortUnique_eq_self strict'
  obtain ⟨same, again, encodable⟩ := keepsCanonical_items nested
  refine ⟨?_, ?_, ?_⟩
  · rw [canonical_set, encoding_set, encoding_set, unique, length_map, same]
  · rw [canonical_set, canonical_set, unique, again]
  · rw [canonical_set]
    exact .set levels _ (by rwa [unique, length_map]) encodable

theorem keepsCanonical (value : ReplValue) :
    ∀ {levels : Nat}, Encodable declaredAtoms levels value →
      KeepsCanonical declaredAtoms levels value := by
  induction value using ReplValue.induction with
  | unit | int | float | string | bytes | bitString | atom => intro levels h; exact ⟨rfl, rfl, h⟩
  | stringBytes bytes =>
    intro levels h
    cases h with
    | stringBytes levels bytes text utf8 fits =>
      have bytes_eq := asBytes_of_fromUtf8 utf8
      have text_eq : canonical (.stringBytes bytes) = .string text := by
        rw [canonical, utf8]
      refine ⟨?_, ?_, ?_⟩
      · rw [text_eq, encoding, encoding, textField, bytes_eq]
        rfl
      · rw [text_eq, canonical]
      · rw [text_eq]
        exact .string levels text (by rwa [bytes_eq])
  | bool value => intro levels h; cases value <;> exact ⟨rfl, rfl, h⟩
  | closure callableId types captures => intro levels h; cases h
  | tuple items ih =>
    intro levels h
    cases h with
    | tuple levels items fits nested =>
      obtain ⟨same, again, encodable⟩ :=
        keepsCanonical_items fun item mem => ih item mem (nested item mem)
      refine ⟨?_, ?_, ?_⟩
      · rw [canonical_tuple, encoding_tuple, encoding_tuple, same, length_map]
      · rw [canonical_tuple, canonical_tuple, again]
      · rw [canonical_tuple]
        exact .tuple levels _ (by rwa [length_map]) encodable
  | record name fields ih =>
    intro levels h
    cases h with
    | record levels name fields named nameFits fits distinct names nested =>
      exact keepsCanonical_record distinct named nameFits fits names
        fun field mem => ih field mem (nested field mem)
  | list items ih =>
    intro levels h
    cases h with
    | list levels items fits nested =>
      obtain ⟨same, again, encodable⟩ :=
        keepsCanonical_items fun item mem => ih item mem (nested item mem)
      refine ⟨?_, ?_, ?_⟩
      · rw [canonical_list, encoding_list, encoding_list, same, length_map]
      · rw [canonical_list, canonical_list, again]
      · rw [canonical_list]
        exact .list levels _ (by rwa [length_map]) encodable
  | map entries ih =>
    intro levels h
    cases h with
    | map levels entries fits distinct keys values =>
      exact keepsCanonical_map distinct fits
        (fun entry mem => (ih entry mem).1 (keys entry mem))
        fun entry mem => (ih entry mem).2 (values entry mem)
  | set items ih =>
    intro levels h
    cases h with
    | set levels items fits nested =>
      exact keepsCanonical_set fits fun item mem => ih item mem (nested item mem)

end Canonical

/-! ## Canonical values, level by level -/

/-- A value that an encoding stands for. -/
structure IsCanonical (declaredAtoms : List String) (levels : Nat) (value : ReplValue) : Prop where
  encodable : Encodable declaredAtoms levels value
  fixed : canonical value = value

section IsCanonical

variable {declaredAtoms : List String} {levels : Nat}

theorem map_eq_self_iff {α : Type} {f : α → α} {l : List α} : l.map f = l ↔ ∀ a ∈ l, f a = a := by
  conv_lhs => rhs; rw [← List.map_id l]
  exact map_inj_left

theorem isCanonical_stringBytes {bytes : Bytes} :
    ¬ IsCanonical declaredAtoms levels (.stringBytes bytes) := by
  rintro ⟨encodable, fixed⟩
  obtain ⟨-, ⟨text, utf8⟩, -⟩ := encodable_stringBytes_iff.mp encodable
  rw [canonical, utf8] at fixed
  cases fixed

variable {items : List ReplValue}

theorem isCanonical_items_iff : (∀ item ∈ items, IsCanonical declaredAtoms levels item) ↔
      (∀ item ∈ items, Encodable declaredAtoms levels item) ∧ items.map canonical = items := by
  rw [map_eq_self_iff]
  exact ⟨fun h => ⟨fun item mem => (h item mem).encodable, fun item mem => (h item mem).fixed⟩,
    fun h item mem => ⟨h.1 item mem, h.2 item mem⟩⟩

theorem isCanonical_tuple_iff : IsCanonical declaredAtoms (levels + 1) (.tuple items) ↔
      FitsLength items.length ∧ ∀ item ∈ items, IsCanonical declaredAtoms levels item := by
  rw [isCanonical_items_iff]
  constructor
  · rintro ⟨encodable, fixed⟩
    obtain ⟨-, fits, nested⟩ := encodable_tuple_iff.mp encodable
    rw [canonical_tuple] at fixed
    exact ⟨fits, nested, ReplValue.tuple.inj fixed⟩
  · rintro ⟨fits, nested, fixed⟩
    exact ⟨.tuple levels items fits nested, by rw [canonical_tuple, fixed]⟩

theorem isCanonical_list_iff : IsCanonical declaredAtoms (levels + 1) (.list items) ↔
      FitsLength items.length ∧ ∀ item ∈ items, IsCanonical declaredAtoms levels item := by
  rw [isCanonical_items_iff]
  constructor
  · rintro ⟨encodable, fixed⟩
    obtain ⟨-, fits, nested⟩ := encodable_list_iff.mp encodable
    rw [canonical_list] at fixed
    exact ⟨fits, nested, ReplValue.list.inj fixed⟩
  · rintro ⟨fits, nested, fixed⟩
    exact ⟨.list levels items fits nested, by rw [canonical_list, fixed]⟩

theorem isCanonical_record_iff {name : String} {fields : List (String × ReplValue)} :
    IsCanonical declaredAtoms (levels + 1) (.record name fields) ↔
      (isBlank name = false ∧ FitsLength (asBytes name).length) ∧ FitsLength fields.length ∧
        fields.Pairwise (KeyLT Prod.fst) ∧
          ∀ field ∈ fields, FieldName field.1 ∧ IsCanonical declaredAtoms levels field.2 := by
  constructor
  · rintro ⟨encodable, fixed⟩
    obtain ⟨-, named, nameFits, fits, distinct, nested⟩ := encodable_record_iff.mp encodable
    rw [canonical_record] at fixed
    have fixed := (ReplValue.record.inj fixed).2
    have strict : fields.Pairwise (KeyLT Prod.fst) := by
      rw [← fixed]
      exact pairwise_keyLT_map (fun _ _ => rfl) (sortedFields_strict distinct)
    have sorted : sortedFields fields = fields := sortByKey_eq_self strict
    rw [sorted, map_eq_self_iff] at fixed
    refine ⟨⟨named, nameFits⟩, fits, strict, fun field mem => ⟨(nested field mem).1, ?_⟩⟩
    exact ⟨(nested field mem).2, congrArg Prod.snd (fixed field mem)⟩
  · rintro ⟨⟨named, nameFits⟩, fits, strict, nested⟩
    have sorted : sortedFields fields = fields := sortByKey_eq_self strict
    refine ⟨.record levels name fields named nameFits fits ?_ (fun field mem => (nested field mem).1)
      fun field mem => (nested field mem).2.encodable, ?_⟩
    · exact pairwise_map.mpr (strict.imp fun lt => keyLT_irrefl Prod.fst lt)
    · rw [canonical_record, sorted, map_eq_self_iff.mpr]
      intro field mem
      rw [(nested field mem).2.fixed]

theorem isCanonical_map_iff {entries : List (ReplValue × ReplValue)} :
    IsCanonical declaredAtoms (levels + 1) (.map entries) ↔
      FitsLength entries.length ∧ entries.Pairwise (KeyLT fun entry => encoding entry.1) ∧
        ∀ entry ∈ entries,
          IsCanonical declaredAtoms levels entry.1 ∧ IsCanonical declaredAtoms levels entry.2 := by
  constructor
  · rintro ⟨encodable, fixed⟩
    obtain ⟨-, fits, distinct, keys, values⟩ := encodable_map_iff.mp encodable
    rw [canonical_map] at fixed
    have fixed := ReplValue.map.inj fixed
    have strict : entries.Pairwise (KeyLT fun entry => encoding entry.1) := by
      rw [← fixed]
      refine pairwise_keyLT_map (fun entry mem => ?_) (sortedEntries_strict distinct)
      exact (keepsCanonical entry.1 (keys entry (mem_sortByKey.mp mem))).same
    have sorted : sortedEntries entries = entries := sortByKey_eq_self strict
    rw [sorted, map_eq_self_iff] at fixed
    refine ⟨fits, strict, fun entry mem => ⟨⟨keys entry mem, ?_⟩, ⟨values entry mem, ?_⟩⟩⟩
    · exact congrArg Prod.fst (fixed entry mem)
    · exact congrArg Prod.snd (fixed entry mem)
  · rintro ⟨fits, strict, nested⟩
    have sorted : sortedEntries entries = entries := sortByKey_eq_self strict
    refine ⟨.map levels entries fits ?_ (fun entry mem => (nested entry mem).1.encodable)
      fun entry mem => (nested entry mem).2.encodable, ?_⟩
    · exact pairwise_map.mpr (strict.imp fun lt => keyLT_irrefl _ lt)
    · rw [canonical_map, sorted, map_eq_self_iff.mpr]
      intro entry mem
      rw [(nested entry mem).1.fixed, (nested entry mem).2.fixed]

theorem isCanonical_set_iff : IsCanonical declaredAtoms (levels + 1) (.set items) ↔
      FitsLength items.length ∧ items.Pairwise (KeyLT encoding) ∧
        ∀ item ∈ items, IsCanonical declaredAtoms levels item := by
  constructor
  · rintro ⟨encodable, fixed⟩
    obtain ⟨-, fits, nested⟩ := encodable_set_iff.mp encodable
    rw [canonical_set] at fixed
    have fixed := ReplValue.set.inj fixed
    have strict : items.Pairwise (KeyLT encoding) := by
      rw [← fixed]
      refine pairwise_keyLT_map (fun item mem => ?_) (uniqueItems_strict items)
      exact (keepsCanonical item (nested item (mem_of_mem_sortUnique mem))).same
    have unique : uniqueItems items = items := sortUnique_eq_self strict
    rw [unique] at fits fixed
    exact ⟨fits, strict, isCanonical_items_iff.mpr ⟨nested, fixed⟩⟩
  · rintro ⟨fits, strict, nested⟩
    have unique : uniqueItems items = items := sortUnique_eq_self strict
    obtain ⟨encodable, fixed⟩ := isCanonical_items_iff.mp nested
    exact ⟨.set levels items (by rwa [unique]) encodable, by rw [canonical_set, unique, fixed]⟩

end IsCanonical

/-! ## The number of nested values -/

mutual

/-- The values inside a value, at any depth. -/
def nestedValues : ReplValue → Nat
  | .tuple items | .list items | .set items => itemsValues items
  | .map entries => entriesValues entries
  | .record _ fields => fieldsValues fields
  | _ => 0

def itemsValues : List ReplValue → Nat
  | [] => 0
  | item :: items => 1 + nestedValues item + itemsValues items

def entriesValues : List (ReplValue × ReplValue) → Nat
  | [] => 0
  | (key, value) :: entries => 2 + nestedValues key + nestedValues value + entriesValues entries

def fieldsValues : List (String × ReplValue) → Nat
  | [] => 0
  | (_, value) :: fields => 1 + nestedValues value + fieldsValues fields

end

theorem itemsValues_eq : itemsValues items = (items.map fun item => 1 + nestedValues item).sum := by
  induction items with
  | nil => rfl
  | cons item items ih => rw [itemsValues, ih, map_cons, sum_cons]

theorem entriesValues_eq : entriesValues entries =
      (entries.map fun entry => 2 + nestedValues entry.1 + nestedValues entry.2).sum := by
  induction entries with
  | nil => rfl
  | cons entry entries ih => rw [entriesValues, ih, map_cons, sum_cons]

theorem fieldsValues_eq :
    fieldsValues fields = (fields.map fun field => 1 + nestedValues field.2).sum := by
  induction fields with
  | nil => rfl
  | cons field fields ih => rw [fieldsValues, ih, map_cons, sum_cons]

/-- A canonical form has no more values than the value itself. -/
theorem nestedValues_canonical_le (value : ReplValue) :
    nestedValues (canonical value) ≤ nestedValues value := by
  have items_le : ∀ {items : List ReplValue},
      (∀ item ∈ items, nestedValues (canonical item) ≤ nestedValues item) →
        itemsValues (items.map canonical) ≤ itemsValues items := by
    intro items h
    rw [itemsValues_eq, itemsValues_eq, map_map]
    exact sum_le_sum fun item mem => Nat.add_le_add_left (h item mem) 1
  induction value using ReplValue.induction with
  | unit | int | float | string | bytes | bitString | atom | bool | closure => exact Nat.le_refl _
  | stringBytes bytes =>
    rw [canonical]
    split <;> exact Nat.zero_le _
  | tuple items ih =>
    rw [canonical_tuple]
    exact items_le ih
  | record name fields ih =>
    have perm : (sortedFields fields).Perm fields := sortByKey_perm _ _
    rw [canonical_record, nestedValues, nestedValues, fieldsValues_eq, fieldsValues_eq,
      map_map, ← (perm.map fun field => 1 + nestedValues field.2).sum_eq]
    exact sum_le_sum fun field mem =>
      Nat.add_le_add_left (ih field (mem_sortByKey.mp mem)) 1
  | list items ih =>
    rw [canonical_list]
    exact items_le ih
  | map entries ih =>
    have perm : (sortedEntries entries).Perm entries := sortByKey_perm _ _
    rw [canonical_map, nestedValues, nestedValues, entriesValues_eq, entriesValues_eq,
      map_map,
      ← (perm.map fun entry => 2 + nestedValues entry.1 + nestedValues entry.2).sum_eq]
    refine sum_le_sum fun entry mem => ?_
    obtain ⟨key, value⟩ := ih entry (mem_sortByKey.mp mem)
    simp only [Function.comp]
    omega
  | set items ih =>
    rw [canonical_set]
    refine Nat.le_trans (items_le fun item mem => ih item (mem_of_mem_sortUnique mem)) ?_
    rw [nestedValues, itemsValues_eq, itemsValues_eq]
    exact sum_sortUnique_le encoding _ items

theorem sum_le_length_flatMap {α : Type} {l : List α} {f : α → Nat} {out : α → Bytes}
    (h : ∀ a ∈ l, f a ≤ (out a).length) : (l.map f).sum ≤ (l.flatMap out).length := by
  rw [length_flatMap]
  exact sum_le_sum h

/-- Every value in an encoding takes at least a byte of it. -/
theorem nestedValues_lt_length (value : ReplValue) :
    ∀ {levels : Nat}, IsCanonical declaredAtoms levels value →
      1 + nestedValues value ≤ (encoding value).length := by
  have leaf : ∀ {value : ReplValue}, nestedValues value = 0 → ∀ {levels : Nat},
      IsCanonical declaredAtoms levels value →
        1 + nestedValues value ≤ (encoding value).length := by
    intro value none levels h
    have := encoding_ne_nil h.encodable
    omega
  induction value using ReplValue.induction with
  | unit | int | float | string | stringBytes | bytes | bitString | atom | bool | closure =>
    exact leaf rfl
  | tuple items ih =>
    intro levels h
    obtain ⟨levels, rfl⟩ := h.encodable.levels_eq
    have nested := (isCanonical_tuple_iff.mp h).2
    have := sum_le_length_flatMap fun item mem => ih item mem (nested item mem)
    rw [encoding_tuple, nestedValues, itemsValues_eq]
    simp only [length_append, length_cons]
    omega
  | record name fields ih =>
    intro levels h
    obtain ⟨levels, rfl⟩ := h.encodable.levels_eq
    obtain ⟨-, -, strict, nested⟩ := isCanonical_record_iff.mp h
    have sorted : sortedFields fields = fields := sortByKey_eq_self strict
    have := @sum_le_length_flatMap _ fields (fun field => 1 + nestedValues field.2)
      (fun field => textField field.1 ++ encoding field.2) fun field mem => by
        have := ih field mem (nested field mem).2
        rw [length_append]
        omega
    rw [encoding_record, nestedValues, fieldsValues_eq, sorted]
    simp only [length_append, length_cons]
    omega
  | list items ih =>
    intro levels h
    obtain ⟨levels, rfl⟩ := h.encodable.levels_eq
    have nested := (isCanonical_list_iff.mp h).2
    have := sum_le_length_flatMap fun item mem => ih item mem (nested item mem)
    rw [encoding_list, nestedValues, itemsValues_eq]
    simp only [length_append, length_cons]
    omega
  | map entries ih =>
    intro levels h
    obtain ⟨levels, rfl⟩ := h.encodable.levels_eq
    obtain ⟨-, strict, nested⟩ := isCanonical_map_iff.mp h
    have sorted : sortedEntries entries = entries := sortByKey_eq_self strict
    have := @sum_le_length_flatMap _ entries
      (fun entry => 2 + nestedValues entry.1 + nestedValues entry.2)
      (fun entry => encoding entry.1 ++ encoding entry.2) fun entry mem => by
        have key := (ih entry mem).1 (nested entry mem).1
        have value := (ih entry mem).2 (nested entry mem).2
        rw [length_append]
        omega
    rw [encoding_map, nestedValues, entriesValues_eq, sorted]
    simp only [length_append, length_cons]
    omega
  | set items ih =>
    intro levels h
    obtain ⟨levels, rfl⟩ := h.encodable.levels_eq
    obtain ⟨-, strict, nested⟩ := isCanonical_set_iff.mp h
    have unique : uniqueItems items = items := sortUnique_eq_self strict
    have := sum_le_length_flatMap fun item mem => ih item mem (nested item mem)
    rw [encoding_set, nestedValues, itemsValues_eq, unique]
    simp only [length_append, length_cons]
    omega

end Terlan.TermFormat
