/-
  Binary layout patterns: a layout is checked as a whole against the bits of a binary, then one
  of its fields is extracted. An operation carries its layout in encoded form.
-/
import Terlan.Managed.BitString

namespace Terlan.Managed

open Terlan.Lib List

/-- One field of a binary layout. -/
inductive ManagedBinaryPatternField where
  | uInt (width : UInt64)
  | int (width : UInt64)
  | bytes (width : UInt64)
  | bits (width : UInt64)
  | utf8
  | utf16
  | utf32
  | rest

namespace BinaryPattern

open BitString

/-! ## The encoded operation -/

def version : Nat := 1

def matchesTag : UInt8 := 1

def extractTag : UInt8 := 2

def headerBytes : Nat := 14

def fieldBytes : Nat := 9

def maxFields : Nat := 256

/-- `TVPB`. -/
def magic : List UInt8 := [0x54, 0x56, 0x50, 0x42]

def fieldIsReference : ManagedBinaryPatternField → Bool
  | .bytes _ | .bits _ | .rest => true
  | _ => false

def fieldEncoding : ManagedBinaryPatternField → UInt8 × UInt64
  | .uInt width => (1, width)
  | .int width => (2, width)
  | .bytes width => (3, width)
  | .bits width => (4, width)
  | .utf8 => (5, 0)
  | .utf16 => (6, 0)
  | .utf32 => (7, 0)
  | .rest => (8, 0)

def fieldDecoding (tag : UInt8) (width : UInt64) :
    Except ManagedMemoryError ManagedBinaryPatternField :=
  match tag.toNat, width.toNat with
  | 1, _ => .ok (.uInt width)
  | 2, _ => .ok (.int width)
  | 3, _ => .ok (.bytes width)
  | 4, _ => .ok (.bits width)
  | 5, 0 => .ok .utf8
  | 6, 0 => .ok .utf16
  | 7, 0 => .ok .utf32
  | 8, 0 => .ok .rest
  | _, _ => .error .invalidManagedOperation

/-- Whether a field may stand in a layout, by what comes after it. -/
def fieldAllowed (field : ManagedBinaryPatternField) (last : Bool) : Bool :=
  match field with
  | .uInt width | .int width => 1 ≤ width ∧ width ≤ 63
  | .bytes width | .bits width => width ≠ 0
  | .rest => last
  | _ => true

def fieldsAllowed : List ManagedBinaryPatternField → Bool
  | [] => true
  | field :: fields => fieldAllowed field fields.isEmpty && fieldsAllowed fields

def validateFields (fields : List ManagedBinaryPatternField) : Except ManagedMemoryError Unit :=
  if fields.length > maxFields then .error .invalidManagedOperation
  else if fieldsAllowed fields then .ok ()
  else .error .invalidManagedOperation

structure Operation where
  tag : UInt8
  endian : Endian
  selected : Nat
  fields : List ManagedBinaryPatternField

def encodeField (field : ManagedBinaryPatternField) : List UInt8 :=
  (fieldEncoding field).1 :: leBytes 8 (fieldEncoding field).2.toNat

def flag (set : Bool) : UInt8 := if set then 1 else 0

def encode (tag : UInt8) (reference : Bool) (endian : Endian)
    (fields : List ManagedBinaryPatternField) (selected : Nat) :
    Except ManagedMemoryError (List UInt8) := do
  validateFields fields
  if fields.length ≥ 2 ^ 16 ∨ selected ≥ 2 ^ 16 then throw .invalidManagedOperation
  else
    pure (magic ++ leBytes 2 version ++ [tag, flag reference, flag (endian = .little), 0] ++
      leBytes 2 fields.length ++ leBytes 2 selected ++ fields.flatMap encodeField)

def encodeBinaryPatternMatchesOperation (endian : Endian)
    (fields : List ManagedBinaryPatternField) : Except ManagedMemoryError (List UInt8) :=
  encode matchesTag false endian fields 0

def encodeBinaryPatternExtractOperation (endian : Endian)
    (fields : List ManagedBinaryPatternField) (selected : Nat) :
    Except ManagedMemoryError (List UInt8) :=
  match fields[selected]? with
  | some field => encode extractTag (fieldIsReference field) endian fields selected
  | none => .error .invalidManagedOperation

/-- The fields, nine bytes each. -/
def decodeFields : List UInt8 → Except ManagedMemoryError (List ManagedBinaryPatternField)
  | tag :: b₀ :: b₁ :: b₂ :: b₃ :: b₄ :: b₅ :: b₆ :: b₇ :: encoded => do
    let width := ofLeBytes [b₀, b₁, b₂, b₃, b₄, b₅, b₆, b₇]
    let field ← fieldDecoding tag (UInt64.ofNat width)
    pure (field :: (← decodeFields encoded))
  | _ => .ok []

def decodeEndian (byte : UInt8) : Except ManagedMemoryError Endian :=
  match byte.toNat with
  | 0 => .ok .big
  | 1 => .ok .little
  | _ => .error .invalidManagedOperation

/-- What follows the version, by its parts. -/
def decodeParts (tag reference endian : UInt8) (count selected : Nat) (encoded : List UInt8) :
    Except ManagedMemoryError Operation := do
  let endian ← decodeEndian endian
  if count > maxFields ∨ encoded.length ≠ count * fieldBytes then
    throw .invalidManagedOperation
  else
    let fields ← decodeFields encoded
    validateFields fields
    if tag = matchesTag ∧ (selected ≠ 0 ∨ reference ≠ 0) ∨
        tag = extractTag ∧
          (fields[selected]?.map fun field => flag (fieldIsReference field)) ≠ some reference then
      throw .invalidManagedOperation
    else pure ⟨tag, endian, selected, fields⟩

def decode : List UInt8 → Except ManagedMemoryError Operation
  | m₀ :: m₁ :: m₂ :: m₃ :: v₀ :: v₁ :: tag :: reference :: endian :: zero :: c₀ :: c₁ :: s₀ :: s₁ ::
      encoded =>
      if [m₀, m₁, m₂, m₃] ≠ magic ∨ [v₀, v₁] ≠ leBytes 2 version ∨
          ¬ (tag = matchesTag ∨ tag = extractTag) ∨ reference > 1 ∨ zero ≠ 0 then
        .error .invalidManagedOperation
      else
        decodeParts tag reference endian (ofLeBytes [c₀, c₁]) (ofLeBytes [s₀, s₁]) encoded
  | _ => .error .invalidManagedOperation

theorem fieldDecoding_encoding (field : ManagedBinaryPatternField) :
    fieldDecoding (fieldEncoding field).1 (fieldEncoding field).2 = .ok field := by
  cases field <;> rfl

theorem decodeFields_flatMap (fields : List ManagedBinaryPatternField) :
    decodeFields (fields.flatMap encodeField) = .ok fields := by
  induction fields with
  | nil => rfl
  | cons field fields ih =>
    have width : UInt64.ofNat (ofLeBytes (leBytes 8 (fieldEncoding field).2.toNat)) =
        (fieldEncoding field).2 := by
      rw [ofLeBytes_leBytes (fieldEncoding field).2.toNat_lt, UInt64.ofNat_toNat]
    rw [flatMap_cons]
    change (do
      let width := ofLeBytes (leBytes 8 (fieldEncoding field).2.toNat)
      let first ← fieldDecoding (fieldEncoding field).1 (UInt64.ofNat width)
      pure (first :: (← decodeFields (fields.flatMap encodeField)))) = _
    dsimp only
    rw [width, fieldDecoding_encoding, ih]
    rfl

theorem length_flatMap_encodeField (fields : List ManagedBinaryPatternField) :
    (fields.flatMap encodeField).length = fields.length * fieldBytes := by
  induction fields with
  | nil => rfl
  | cons field fields ih =>
    rw [flatMap_cons, length_append, ih]
    simp only [encodeField, length_cons, length_leBytes, fieldBytes]
    omega

theorem decodeEndian_flag (endian : Endian) :
    decodeEndian (flag (endian = .little)) = .ok endian := by
  cases endian <;> rfl

/-- An operation that was encoded is decoded to itself. -/
theorem decode_encode {tag : UInt8} {reference : Bool} {endian : Endian}
    {fields : List ManagedBinaryPatternField} {selected : Nat}
    (valid : validateFields fields = .ok ()) (short : selected < 2 ^ 16)
    (admissible : tag = matchesTag ∧ selected = 0 ∧ reference = false ∨
      tag = extractTag ∧ fields[selected]?.map fieldIsReference = some reference) :
    ∃ encoded, encode tag reference endian fields selected = .ok encoded ∧
      decode encoded = .ok ⟨tag, endian, selected, fields⟩ := by
  have few : fields.length ≤ maxFields := by
    unfold validateFields at valid
    by_contra many
    rw [if_pos (Nat.lt_of_not_le many)] at valid
    cases valid
  have count : fields.length < 2 ^ 16 := Nat.lt_of_le_of_lt few (by decide)
  refine ⟨magic ++ leBytes 2 version ++ [tag, flag reference, flag (endian = .little), 0] ++
      leBytes 2 fields.length ++ leBytes 2 selected ++ fields.flatMap encodeField, ?_, ?_⟩
  · unfold encode
    rw [valid]
    exact if_neg (by omega)
  · have parts : decodeParts tag (flag reference) (flag (endian = .little)) fields.length selected
        (fields.flatMap encodeField) = .ok ⟨tag, endian, selected, fields⟩ := by
      unfold decodeParts
      rw [decodeEndian_flag]
      refine (if_neg ?_).trans ?_
      · rw [length_flatMap_encodeField]
        omega
      · rw [decodeFields_flatMap]
        change (do
          validateFields fields
          _) = _
        rw [valid]
        refine if_neg ?_
        rintro (⟨_, wrong⟩ | ⟨extracts, wrong⟩)
        · rcases admissible with ⟨_, zero, none⟩ | ⟨extracts, _⟩
          · subst zero none
            simp [flag] at wrong
          · subst extracts
            contradiction
        · rcases admissible with ⟨matching, _⟩ | ⟨_, chosen⟩
          · subst extracts
            contradiction
          · refine wrong ?_
            rw [← Function.comp_def, ← Option.map_map, chosen]
            rfl
    have count' : ofLeBytes (leBytes 2 fields.length) = fields.length := ofLeBytes_leBytes count
    have short' : ofLeBytes (leBytes 2 selected) = selected := ofLeBytes_leBytes short
    change (if magic ≠ magic ∨ leBytes 2 version ≠ leBytes 2 version ∨
        ¬ (tag = matchesTag ∨ tag = extractTag) ∨ flag reference > 1 ∨ (0 : UInt8) ≠ 0 then
        Except.error ManagedMemoryError.invalidManagedOperation
      else decodeParts tag (flag reference) (flag (endian = .little))
        (ofLeBytes (leBytes 2 fields.length)) (ofLeBytes (leBytes 2 selected))
        (fields.flatMap encodeField)) = _
    rw [count', short', parts]
    refine if_neg ?_
    have known : tag = matchesTag ∨ tag = extractTag :=
      admissible.imp (fun h => h.1) fun h => h.1
    have small : ¬ flag reference > 1 := by cases reference <;> decide
    simp [known, small]


/-! ## Reading fields -/

def copyBits (view : ManagedBinaryView) (start width : Nat) :
    Except ManagedMemoryError (List UInt8) :=
  copyRange view start width 0 (List.replicate (divCeil width 8) 0)

/-- Groups of eight bits, the low group first. -/
def readGroups (view : ManagedBinaryView) (start width source : Nat) (raw : Word) :
    Except ManagedMemoryError Word :=
  if source < width then do
    let group := min (width - source) 8
    let raw ← (List.range group).foldlM
      (fun (raw : Word) index => do
        let bit ← viewBit view (start + source + index)
        pure (raw ||| bitWord 64 bit <<< (source + group - index - 1)))
      raw
    readGroups view start width (source + group) raw
  else .ok raw
termination_by width - source

def readInteger (view : ManagedBinaryView) (endian : Endian) (start width : Nat) :
    Except ManagedMemoryError Word :=
  match endian with
  | .big =>
    (List.range width).foldlM
      (fun (raw : Word) index => do
        let bit ← viewBit view (start + index)
        pure (raw <<< 1 ||| bitWord 64 bit))
      0
  | .little => readGroups view start width 0 0

def decodeInteger (view : ManagedBinaryView) (start width : Nat) (signed : Bool)
    (endian : Endian) : Except ManagedMemoryError Word := do
  let raw ← readInteger view endian start width
  pure (signExtended signed width raw)

/-- The width of a scalar value by its first byte. -/
def utf8Width (view : ManagedBinaryView) (start : Nat) : Option Nat := do
  let word ← (decodeInteger view start 8 false .big).toOption
  let first := word.toNat % 256
  if first ≤ 0x7f then some 8
  else if 0xc2 ≤ first ∧ first ≤ 0xdf then some 16
  else if 0xe0 ≤ first ∧ first ≤ 0xef then some 24
  else if 0xf0 ≤ first ∧ first ≤ 0xf4 then some 32
  else none

/-- The width of a scalar value by its first unit. -/
def utf16Width (view : ManagedBinaryView) (start : Nat) (endian : Endian) : Option Nat := do
  let word ← (decodeInteger view start 16 false endian).toOption
  let first := word.toNat % 2 ^ 16
  if 0xd800 ≤ first ∧ first ≤ 0xdbff then some 32 else some 16

/-- The one scalar value of the bytes, by the format of the field. -/
def utfSingle (endian : Endian) (field : ManagedBinaryPatternField) (bytes : List UInt8) :
    Option Char :=
  match field with
  | .utf8 => utf8Single bytes
  | .utf16 => utf16Single endian bytes
  | .utf32 => utf32Single endian bytes
  | _ => none

def decodeUtf (view : ManagedBinaryView) (start width : Nat) (endian : Endian)
    (field : ManagedBinaryPatternField) : Option Word := do
  let bytes ← (copyBits view start width).toOption
  let scalar ← utfSingle endian field bytes
  pure (BitVec.ofNat 64 scalar.toNat)

def fieldWidth (view : ManagedBinaryView) (offset : Nat) (endian : Endian) :
    ManagedBinaryPatternField → Option Nat
  | .uInt width | .int width | .bits width => some width.toNat
  | .bytes width => usizeMul width.toNat 8
  | .utf8 => utf8Width view offset
  | .utf16 => utf16Width view offset endian
  | .utf32 => some 32
  | .rest =>
    if offset ≤ view.bitLength then
      let width := view.bitLength - offset
      if width % 8 = 0 then some width else none
    else none

def isUtf : ManagedBinaryPatternField → Bool
  | .utf8 | .utf16 | .utf32 => true
  | _ => false

/-- The ranges of the fields from an offset on. -/
def matchedRangesFrom (view : ManagedBinaryView) (endian : Endian) (offset : Nat) :
    List ManagedBinaryPatternField → Option (List (Nat × Nat))
  | [] => if offset = view.bitLength then some [] else none
  | field :: fields => do
    let width ← fieldWidth view offset endian field
    let last ← usizeAdd offset width
    if last > view.bitLength then none
    else if isUtf field ∧ (decodeUtf view offset width endian field).isNone then none
    else
      let ranges ← matchedRangesFrom view endian last fields
      pure ((offset, width) :: ranges)

def matchedRanges (view : ManagedBinaryView) (endian : Endian)
    (fields : List ManagedBinaryPatternField) : Option (List (Nat × Nat)) :=
  matchedRangesFrom view endian 0 fields

inductive Extracted where
  | scalar (value : Word)
  | bytes (value : List UInt8)
  | binary (value : List UInt8) (bitLength : Nat)

def extract (view : ManagedBinaryView) (endian : Endian) (field : ManagedBinaryPatternField)
    (start width : Nat) : Except ManagedMemoryError Extracted :=
  match field with
  | .uInt _ => return .scalar (← decodeInteger view start width false endian)
  | .int _ => return .scalar (← decodeInteger view start width true endian)
  | .utf8 | .utf16 | .utf32 =>
    match decodeUtf view start width endian field with
    | some value => .ok (.scalar value)
    | none => .error .invalidManagedOperation
  | .bytes _ | .rest => return .bytes (← copyBits view start width)
  | .bits _ => return .binary (← copyBits view start width) width

def allocateExtracted : Extracted → HeapM Word
  | .scalar value => pure value
  | .bytes bytes => ActorHeap.allocateBytes bytes
  | .binary bytes bitLength => allocatePacked bytes bitLength

def answer (operation : Operation) (view : ManagedBinaryView) : HeapM Word :=
  match matchedRanges view operation.endian operation.fields with
  | none =>
    if operation.tag = matchesTag then pure 0 else throw .invalidManagedOperation
  | some ranges =>
    if operation.tag = matchesTag then pure 1
    else
      match operation.fields[operation.selected]?, ranges[operation.selected]? with
      | some field, some (start, width) => do
        allocateExtracted (← extract view operation.endian field start width)
      | _, _ => throw .invalidManagedOperation

def executeOperation (operation : Operation) (word : Word) : HeapM Word := do
  let heap ← get
  let view ← heap.readBinary (← referenceWord word)
  answer operation view

def executeBinaryPatternOperation (encoded : List UInt8) : List Word → HeapM Word
  | [word] => do
    let operation ← decode encoded
    executeOperation operation word
  | _ => throw .invalidAggregateArity

end BinaryPattern

end Terlan.Managed
