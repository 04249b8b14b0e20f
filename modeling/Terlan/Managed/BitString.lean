/-
  Operations of generated code on actor-owned bitstrings: making them from bytes, integers and
  Unicode scalar values, cutting and joining them, and reading them back.
-/
import Terlan.Lib.Bytes
import Terlan.Managed.Heap

namespace Terlan.Managed

open Terlan.Lib

abbrev HeapM (α : Type) := Method ManagedMemoryError ActorHeap α

inductive Endian where
  | big
  | little
deriving DecidableEq

inductive ManagedBitStringOperation where
  | fromBytes | fromAllBytes | fromExactBytes | requireExactBits
  | fromUintBe | fromIntBe | fromUintLe | fromIntLe
  | utf8Scalar | toUtf8Scalar
  | utf16BeScalar | utf16LeScalar | toUtf16BeScalar | toUtf16LeScalar
  | utf32BeScalar | utf32LeScalar | toUtf32BeScalar | toUtf32LeScalar
  | bitLength | byteLength | isByteAligned
  | slice | concat | toBytes
  | toUintBe | toIntBe | toUintLe | toIntLe
deriving DecidableEq

namespace ManagedBitStringOperation

/-- The operations in the order of their tags, which start at 1. -/
def inventory : List ManagedBitStringOperation :=
  [.fromBytes, .fromAllBytes, .fromExactBytes, .requireExactBits, .fromUintBe, .fromIntBe,
    .fromUintLe, .fromIntLe, .utf8Scalar, .toUtf8Scalar, .utf16BeScalar, .utf16LeScalar,
    .toUtf16BeScalar, .toUtf16LeScalar, .utf32BeScalar, .utf32LeScalar, .toUtf32BeScalar,
    .toUtf32LeScalar, .bitLength, .byteLength, .isByteAligned, .slice, .concat, .toBytes,
    .toUintBe, .toIntBe, .toUintLe, .toIntLe]

def tag (operation : ManagedBitStringOperation) : UInt8 :=
  UInt8.ofNat (inventory.idxOf operation + 1)

def fromTag (tag : UInt8) : Option ManagedBitStringOperation :=
  match tag.toNat with
  | 0 => none
  | index + 1 => inventory[index]?

def resultIsReference : ManagedBitStringOperation → Bool
  | .fromBytes | .fromAllBytes | .fromExactBytes | .requireExactBits | .fromUintBe | .fromIntBe
  | .fromUintLe | .fromIntLe | .utf8Scalar | .utf16BeScalar | .utf16LeScalar | .utf32BeScalar
  | .utf32LeScalar | .slice | .concat | .toBytes => true
  | _ => false

end ManagedBitStringOperation

namespace BitString

/-- `TVBS`, then the version. -/
def header : List UInt8 := [0x54, 0x56, 0x42, 0x53] ++ leBytes 2 1

def operationBytes : Nat := 8

def encodeBitstringOperation (operation : ManagedBitStringOperation) : List UInt8 :=
  header ++ [operation.tag, if operation.resultIsReference then 1 else 0]

def decode (encoded : List UInt8) : Except ManagedMemoryError ManagedBitStringOperation :=
  match encoded[6]?.bind ManagedBitStringOperation.fromTag with
  | none => .error .invalidManagedOperation
  | some operation =>
    if encoded.length ≠ operationBytes ∨ encoded.take 6 ≠ header ∨
        encoded[7]? ≠ some (if operation.resultIsReference then 1 else 0) then
      .error .invalidManagedOperation
    else .ok operation

theorem decode_encode (operation : ManagedBitStringOperation) :
    decode (encodeBitstringOperation operation) = .ok operation := by
  cases operation <;> decide

/-! ## Words -/

def referenceWord (word : Word) : Except ManagedMemoryError Word :=
  if word = 0 then .error .invalidAggregateField else .ok word

/-- `usize::try_from` of an `i64`. -/
def nonnegativeUsize (value : Word) : Except ManagedMemoryError Nat :=
  if value.toInt < 0 then .error .invalidManagedScalar else .ok value.toNat

def integerWidth (value : Word) : Except ManagedMemoryError Nat := do
  let width ← nonnegativeUsize value
  if 1 ≤ width ∧ width ≤ 63 then pure width else throw .invalidManagedScalar

/-- `i64::try_from` of a `usize`. -/
def scalarUsize (value : Nat) : Except ManagedMemoryError Word :=
  if value < 2 ^ 63 then .ok (BitVec.ofNat 64 value) else .error .invalidSequenceLength

/-- `char::from_u32`. -/
def charFromU32 (value : Nat) : Option Char :=
  if _ : value.isValidChar then some (Char.ofNat value) else none

def scalarChar (value : Word) : Except ManagedMemoryError Char :=
  if value.toInt < 0 ∨ 2 ^ 32 ≤ value.toInt then .error .invalidManagedScalar
  else
    match charFromU32 value.toNat with
    | some scalar => .ok scalar
    | none => .error .invalidManagedScalar

/-! ## Views -/

def divCeil (n d : Nat) : Nat := (n + (d - 1)) / d

def viewBit (view : ManagedBinaryView) (index : Nat) : Except ManagedMemoryError Bool :=
  match view.bit index with
  | some bit => .ok bit
  | none => .error .invalidBitRange

/-- Sets the bits of a range of a view in the output, from a position on. -/
def copyRange (source : ManagedBinaryView) (start count offset : Nat) (output : List UInt8) :
    Except ManagedMemoryError (List UInt8) :=
  (List.range count).foldlM
    (fun output index => do
      let set ← viewBit source (start + index)
      pure (if set then setBit output (offset + index) else output))
    output

def packRange (source : ManagedBinaryView) (start bitLength : Nat) :
    Except ManagedMemoryError (List UInt8) :=
  copyRange source start bitLength 0 (List.replicate (divCeil bitLength 8) 0)

def copyBits (source : ManagedBinaryView) (output : List UInt8) (offset : Nat) :
    Except ManagedMemoryError (List UInt8) :=
  copyRange source 0 source.bitLength offset output

def alignedPacked (view : ManagedBinaryView) : Except ManagedMemoryError (List UInt8) :=
  if ¬ view.isByteAligned then .error .invalidBitRange else packRange view 0 view.bitLength

def maskTrailingBits (bytes : List UInt8) (bitLength : Nat) : List UInt8 :=
  let used := bitLength % 8
  if used ≠ 0 then bytes.modify (bytes.length - 1) (· &&& UInt8.ofNat (256 - 2 ^ (8 - used)))
  else bytes

def allocatePacked (packed : List UInt8) (bitLength : Nat) : HeapM Word := do
  let storage ← ActorHeap.allocateBytes packed
  ActorHeap.allocateBinary storage 0 bitLength

def unaryView (heap : ActorHeap) : List Word → Except ManagedMemoryError ManagedBinaryView
  | [binary] => do heap.readBinary (← referenceWord binary)
  | _ => .error .invalidAggregateArity

/-! ## Bytes -/

def fromBytes : List Word → HeapM Word
  | [bytes, bitLength] => do
    let heap ← get
    let bytes ← heap.readBytes (← referenceWord bytes)
    let bitLength ← nonnegativeUsize bitLength
    match usizeMul bytes.length 8 with
    | none => throw .invalidSequenceLength
    | some available =>
      if bitLength > available then throw .invalidBitRange
      else
        allocatePacked (maskTrailingBits (bytes.take (divCeil bitLength 8)) bitLength) bitLength
  | _ => throw .invalidAggregateArity

/-- `FromAllBytes`, and `FromExactBytes` with the length that is asked for. -/
def fromWholeBytes (bytes : Word) (expected : Option Nat) : HeapM Word := do
  let heap ← get
  let value ← heap.readBytes bytes
  if expected.any (· ≠ value.length) then throw .invalidSequenceLength
  else
    match usizeMul value.length 8 with
    | none => throw .invalidSequenceLength
    | some bitLength => ActorHeap.allocateBinary bytes 0 bitLength

def fromAllBytes : List Word → HeapM Word
  | [bytes] => do fromWholeBytes (← referenceWord bytes) none
  | _ => throw .invalidAggregateArity

def fromExactBytes : List Word → HeapM Word
  | [bytes, byteLength] => do
    let bytes ← referenceWord bytes
    fromWholeBytes bytes (some (← nonnegativeUsize byteLength))
  | _ => throw .invalidAggregateArity

def requireExactBits : List Word → HeapM Word
  | [binary, bitLength] => do
    let heap ← get
    let reference ← referenceWord binary
    let view ← heap.readBinary reference
    if view.bitLength ≠ (← nonnegativeUsize bitLength) then throw .invalidBitRange
    else pure reference
  | _ => throw .invalidAggregateArity

/-! ## Integers -/

/-- Whole groups of eight bits, the low group first, each with its highest bit first. -/
def packGroups (raw : Word) (width groupStart outputBit : Nat) (packed : List UInt8) :
    List UInt8 :=
  if groupStart < width then
    let groupWidth := min (width - groupStart) 8
    let written := (List.range groupWidth).reverse.foldl
      (fun (state : List UInt8 × Nat) groupBit =>
        (if raw.getLsbD (groupStart + groupBit) then setBit state.1 state.2 else state.1,
          state.2 + 1))
      (packed, outputBit)
    packGroups raw width (groupStart + groupWidth) written.2 written.1
  else packed
termination_by width - groupStart

def packInteger (endian : Endian) (width : Nat) (raw : Word) : List UInt8 :=
  let packed := List.replicate (divCeil width 8) 0
  match endian with
  | .big =>
    (List.range width).foldl
      (fun packed outputBit =>
        if raw.getLsbD (width - outputBit - 1) then setBit packed outputBit else packed)
      packed
  | .little => packGroups raw width 0 0 packed

def integerFits (signed : Bool) (width : Nat) (value : Word) : Bool :=
  if signed then -(2 ^ (width - 1) : Int) ≤ value.toInt ∧ value.toInt < 2 ^ (width - 1)
  else value.toInt ≥ 0 ∧ value.toNat < 2 ^ width

def encodeInteger (signed : Bool) (endian : Endian) : List Word → HeapM Word
  | [value, width] => do
    let width ← integerWidth width
    if ¬ integerFits signed width value then throw .invalidManagedScalar
    else
      let mask : Word := (1#64 <<< width) - 1
      allocatePacked (packInteger endian width (value &&& mask)) width
  | _ => throw .invalidAggregateArity

/-- `view.bit(index).unwrap_or(false)`, `u64::from`. -/
def bitOrZero (view : ManagedBinaryView) (index : Nat) : Word :=
  bitWord 64 ((view.bit index).getD false)

def unpackGroups (view : ManagedBinaryView) (width groupStart sourceBit : Nat) (value : Word) :
    Word :=
  if groupStart < width then
    let groupWidth := min (width - groupStart) 8
    let read := (List.range groupWidth).reverse.foldl
      (fun (state : Word × Nat) groupBit =>
        (state.1 ||| bitOrZero view state.2 <<< (groupStart + groupBit), state.2 + 1))
      (value, sourceBit)
    unpackGroups view width (groupStart + groupWidth) read.2 read.1
  else value
termination_by width - groupStart

/-- The sign bit is carried into the bits above the width. -/
def signExtended (signed : Bool) (width : Nat) (raw : Word) : Word :=
  if signed && raw.getLsbD (width - 1) then raw ||| (~~~0#64 <<< width) else raw

def decodeIntegerOperation (heap : ActorHeap) (signed : Bool) (endian : Endian)
    (words : List Word) : Except ManagedMemoryError Word := do
  let view ← unaryView heap words
  let width := view.bitLength
  if ¬ (1 ≤ width ∧ width ≤ 63) then throw .invalidManagedScalar
  else
    let raw := match endian with
      | .big => (List.range width).foldl (fun value index => value <<< 1 ||| bitOrZero view index) 0
      | .little => unpackGroups view width 0 0 0
    pure (signExtended signed width raw)

/-! ## Unicode scalar values -/

/-- `encode_utf16`. -/
def encodeUtf16Units (scalar : Char) : List Nat :=
  if scalar.toNat < 0x10000 then [scalar.toNat]
  else
    let code := scalar.toNat - 0x10000
    [0xd800 + code / 0x400, 0xdc00 + code % 0x400]

/-- `char::decode_utf16`: a scalar value, or none for an unpaired surrogate. -/
def decodeUtf16 : List Nat → List (Option Char)
  | [] => []
  | unit :: units =>
    if unit < 0xd800 ∨ 0xdfff < unit then some (Char.ofNat unit) :: decodeUtf16 units
    else if 0xdc00 ≤ unit then none :: decodeUtf16 units
    else
      match units with
      | [] => [none]
      | second :: rest =>
        if second < 0xdc00 ∨ 0xdfff < second then none :: decodeUtf16 (second :: rest)
        else
          some (Char.ofNat (0x10000 + (unit - 0xd800) * 0x400 + (second - 0xdc00))) ::
            decodeUtf16 rest

def unitBytes (endian : Endian) (width unit : Nat) : List UInt8 :=
  match endian with
  | .big => beBytes width unit
  | .little => leBytes width unit

def ofUnitBytes (endian : Endian) (bytes : List UInt8) : Nat :=
  match endian with
  | .big => ofBeBytes bytes
  | .little => ofLeBytes bytes

/-- `chunks_exact(2)`. -/
def byteUnits (endian : Endian) : List UInt8 → List Nat
  | first :: second :: bytes => ofUnitBytes endian [first, second] :: byteUnits endian bytes
  | _ => []

/-- Exactly one scalar value. -/
def utf8Single (bytes : List UInt8) : Option Char :=
  match bytes.toByteArray.utf8Decode? with
  | some chars => match chars.toList with
      | [scalar] => some scalar
      | _ => none
  | none => none

def utf16Single (endian : Endian) (bytes : List UInt8) : Option Char :=
  match decodeUtf16 (byteUnits endian bytes) with
  | [some scalar] => some scalar
  | _ => none

def utf32Single (endian : Endian) (bytes : List UInt8) : Option Char :=
  if bytes.length = 4 then charFromU32 (ofUnitBytes endian bytes) else none

/-- The bytes of a scalar value, by the format. -/
def encodeScalar (bytes : Char → List UInt8) : List Word → HeapM Word
  | [value] => do
    let packed := bytes (← scalarChar value)
    allocatePacked packed (packed.length * 8)
  | _ => throw .invalidAggregateArity

def utf16Bytes (endian : Endian) (scalar : Char) : List UInt8 :=
  (encodeUtf16Units scalar).flatMap (unitBytes endian 2)

def utf32Bytes (endian : Endian) (scalar : Char) : List UInt8 := unitBytes endian 4 scalar.toNat

def encodeUtf8 : List Word → HeapM Word := encodeScalar String.utf8EncodeChar

def encodeUtf16 (endian : Endian) : List Word → HeapM Word := encodeScalar (utf16Bytes endian)

def encodeUtf32 (endian : Endian) : List Word → HeapM Word := encodeScalar (utf32Bytes endian)

/-- The one scalar value of whole bytes. -/
def decodeScalar (heap : ActorHeap) (single : List UInt8 → Option Char)
    (error : ManagedMemoryError) (words : List Word) : Except ManagedMemoryError Word := do
  let packed ← alignedPacked (← unaryView heap words)
  match single packed with
  | some scalar => pure (BitVec.ofNat 64 scalar.toNat)
  | none => throw error

def decodeUtf8 (heap : ActorHeap) (words : List Word) : Except ManagedMemoryError Word :=
  decodeScalar heap utf8Single .invalidUtf8 words

def decodeUtf16Scalar (heap : ActorHeap) (endian : Endian) (words : List Word) :
    Except ManagedMemoryError Word :=
  decodeScalar heap
    (fun packed => if packed.length = 2 ∨ packed.length = 4 then utf16Single endian packed else none)
    .invalidManagedScalar words

def decodeUtf32 (heap : ActorHeap) (endian : Endian) (words : List Word) :
    Except ManagedMemoryError Word :=
  decodeScalar heap (utf32Single endian) .invalidManagedScalar words

/-! ## Cutting and joining -/

def slice : List Word → HeapM Word
  | [binary, start, bitLength] => do
    let heap ← get
    let view ← heap.readBinary (← referenceWord binary)
    let start ← nonnegativeUsize start
    let bitLength ← nonnegativeUsize bitLength
    match usizeAdd start bitLength with
    | none => throw .invalidBitRange
    | some last =>
      if last > view.bitLength then throw .invalidBitRange
      else
        let packed ← packRange view start bitLength
        allocatePacked packed bitLength
  | _ => throw .invalidAggregateArity

def concatenate : List Word → HeapM Word
  | [left, right] => do
    let heap ← get
    let left ← heap.readBinary (← referenceWord left)
    let right ← heap.readBinary (← referenceWord right)
    match usizeAdd left.bitLength right.bitLength with
    | none => throw .invalidSequenceLength
    | some bitLength => do
      let packed ← copyBits left (List.replicate (divCeil bitLength 8) 0) 0
      let packed ← copyBits right packed left.bitLength
      allocatePacked packed bitLength
  | _ => throw .invalidAggregateArity

def toBytes (words : List Word) : HeapM Word := do
  let heap ← get
  let packed ← alignedPacked (← unaryView heap words)
  ActorHeap.allocateBytes packed

/-- An operation that only reads. -/
def reading (read : ActorHeap → Except ManagedMemoryError Word) : HeapM Word := do
  let heap ← get
  read heap

def execute (operation : ManagedBitStringOperation) (words : List Word) : HeapM Word :=
  match operation with
  | .fromBytes => fromBytes words
  | .fromAllBytes => fromAllBytes words
  | .fromExactBytes => fromExactBytes words
  | .requireExactBits => requireExactBits words
  | .fromUintBe => encodeInteger false .big words
  | .fromIntBe => encodeInteger true .big words
  | .fromUintLe => encodeInteger false .little words
  | .fromIntLe => encodeInteger true .little words
  | .utf8Scalar => encodeUtf8 words
  | .utf16BeScalar => encodeUtf16 .big words
  | .utf16LeScalar => encodeUtf16 .little words
  | .utf32BeScalar => encodeUtf32 .big words
  | .utf32LeScalar => encodeUtf32 .little words
  | .toUtf8Scalar => reading fun heap => decodeUtf8 heap words
  | .toUtf16BeScalar => reading fun heap => decodeUtf16Scalar heap .big words
  | .toUtf16LeScalar => reading fun heap => decodeUtf16Scalar heap .little words
  | .toUtf32BeScalar => reading fun heap => decodeUtf32 heap .big words
  | .toUtf32LeScalar => reading fun heap => decodeUtf32 heap .little words
  | .bitLength => reading fun heap => do scalarUsize (← unaryView heap words).bitLength
  | .byteLength => reading fun heap => do
    scalarUsize (divCeil (← unaryView heap words).bitLength 8)
  | .isByteAligned => reading fun heap => do
    pure (bitWord 64 (← unaryView heap words).isByteAligned)
  | .slice => slice words
  | .concat => concatenate words
  | .toBytes => toBytes words
  | .toUintBe => reading fun heap => decodeIntegerOperation heap false .big words
  | .toIntBe => reading fun heap => decodeIntegerOperation heap true .big words
  | .toUintLe => reading fun heap => decodeIntegerOperation heap false .little words
  | .toIntLe => reading fun heap => decodeIntegerOperation heap true .little words

def executeBitstringOperation (encoded : List UInt8) (words : List Word) : HeapM Word := do
  let operation ← decode encoded
  execute operation words

end BitString

end Terlan.Managed
