/-
  Decoder of the Terlan external term format, as the source has it: a cursor over the bytes,
  the recursive `decodeValue`, and the three envelope profiles.

  `&mut self` with a `Result` is `DecodeM`. The nesting limit bounds the recursion: `levels`
  is what is left of it, so `decodeValue levels` is the source's call at depth
  `maxNestingDepth - levels`.
-/
import Terlan.TermFormat.Encode

namespace Terlan.TermFormat

open Terlan.Lib Terlan.DistributedState

/-! ## The cursor -/

structure Decoder where
  bytes : Bytes
  offset : Nat
  declaredAtoms : List String
  remainingValueSlots : Nat

abbrev DecodeM := StateT Decoder (Except String)

def Decoder.new (bytes : Bytes) (declaredAtoms : List String) : Decoder :=
  ⟨bytes, 0, declaredAtoms, usizeMax⟩

/-- `{byte:#04x}`. -/
def hexByte (byte : UInt8) : String :=
  let digit (n : Nat) : Char := "0123456789abcdef".toList.getD n '0'
  "0x" ++ String.ofList [digit (byte.toNat / 16), digit (byte.toNat % 16)]

def readExact (len : Nat) : DecodeM Bytes := do
  let decoder ← get
  let stop := decoder.offset + len
  failIf (stop > usizeMax) "error[tetf_size]: field length overflows host limits"
  failIf (stop > decoder.bytes.length) "error[tetf_truncated]: payload ended before field completed"
  set { decoder with offset := stop }
  return (decoder.bytes.drop decoder.offset).take len

def readU8 : DecodeM UInt8 := do
  return (← readExact 1).headD 0

def readLen : DecodeM Nat := do
  return ofBeBytes (← readExact 4)

def readU64 : DecodeM UInt64 := do
  return UInt64.ofNat (ofBeBytes (← readExact 8))

def readText : DecodeM String := do
  let len ← readLen
  match fromUtf8 (← readExact len) with
  | some text => return text
  | none => throw "error[tetf_utf8]: text field is not valid UTF-8"

def expectTag (expected : UInt8) : DecodeM Unit := do
  let actual ← readU8
  failIf (actual ≠ expected)
    s!"error[tetf_tag]: expected tag {hexByte expected}, found {hexByte actual}"

def requireRemainingItems (count minimumBytes : Nat) : DecodeM Unit := do
  let decoder ← get
  failIf (count * minimumBytes > usizeMax)
    "error[tetf_size]: declared collection length overflows host limits"
  failIf (count * minimumBytes > decoder.bytes.length - decoder.offset)
    ("error[tetf_size]: declared collection length exceeds remaining "
      ++ "payload")

/-- Claims all child slots before allocation, including not-yet-decoded siblings. -/
def reserveValueSlots (count : Nat) : DecodeM Unit := do
  let decoder ← get
  failIf (count > decoder.remainingValueSlots)
    "error[tetf_checkpoint.values]: too many logical values"
  set { decoder with remainingValueSlots := decoder.remainingValueSlots - count }

def finish : DecodeM Unit := do
  let decoder ← get
  failIf (decoder.offset ≠ decoder.bytes.length)
    s!"error[tetf_trailing]: {decoder.bytes.length - decoder.offset} unconsumed payload bytes"

def readHeader (profile : UInt8) : DecodeM Unit := do
  failIf ((← readExact magic.length) ≠ magic) "error[tetf_header]: invalid TETF magic"
  let actualVersion ← readU8
  failIf (actualVersion ≠ version) s!"error[tetf_version]: unsupported TETF version {actualVersion}"
  let actualProfile ← readU8
  failIf (actualProfile ≠ profile)
    s!"error[tetf_profile]: expected profile {profile}, found {actualProfile}"

def requireStrictlyIncreasing (previous : Option Bytes) (current : Bytes) (item : String) :
    Except String Unit :=
  if previous.all fun previous => compare previous current = .lt then .ok ()
  else .error s!"error[tetf_canonical]: {item}s must be strictly ordered"

/-! ## Loops

Each `for` loop of the source over a declared count is a recursion on that count. -/

/-- A fixed number of values. -/
def decodeMany {α : Type} (decode : DecodeM α) : Nat → DecodeM (List α)
  | 0 => return []
  | count + 1 => do
    let value ← decode
    let values ← decodeMany decode count
    return value :: values

/-- The bytes that were read since `start`. -/
def readSince (start : Nat) : DecodeM Bytes := do
  let decoder ← get
  return (decoder.bytes.take decoder.offset).drop start

def decodeMapEntries (decode : DecodeM ReplValue) :
    Nat → Option Bytes → DecodeM (List (ReplValue × ReplValue))
  | 0, _ => return []
  | count + 1, previousKey => do
    let keyStart := (← get).offset
    let key ← decode
    let encodedKey ← readSince keyStart
    requireStrictlyIncreasing previousKey encodedKey "map key"
    let value ← decode
    let entries ← decodeMapEntries decode count (some encodedKey)
    return (key, value) :: entries

def decodeSetItems (decode : DecodeM ReplValue) : Nat → Option Bytes → DecodeM (List ReplValue)
  | 0, _ => return []
  | count + 1, previousItem => do
    let itemStart := (← get).offset
    let value ← decode
    let encodedItem ← readSince itemStart
    requireStrictlyIncreasing previousItem encodedItem "set item"
    let values ← decodeSetItems decode count (some encodedItem)
    return value :: values

def decodeFields (decode : DecodeM ReplValue) :
    Nat → Option String → DecodeM (List (String × ReplValue))
  | 0, _ => return []
  | count + 1, previousField => do
    let field ← readText
    validateRecordField field
    failIf (¬ previousField.all fun previous => compare previous field = .lt)
      "error[tetf_canonical]: record fields must be strictly ordered"
    let value ← decode
    let fields ← decodeFields decode count (some field)
    return (field, value) :: fields

/-! ## Values -/

def decodeAtom : DecodeM ReplValue := do
  let atom ← readText
  failIf (¬ (← get).declaredAtoms.any (· = atom))
    s!"error[tetf_atom]: atom `{atom}` is not in the declared atom manifest"
  return .atom atom

def decodeSequence (decode : DecodeM ReplValue) : DecodeM (List ReplValue) := do
  let len ← readLen
  requireRemainingItems len 1
  reserveValueSlots len
  decodeMany decode len

def decodeMap (decode : DecodeM ReplValue) : DecodeM ReplValue := do
  let len ← readLen
  requireRemainingItems len 2
  failIf (len * 2 > usizeMax) "error[tetf_size]: map value count overflow"
  reserveValueSlots (len * 2)
  return .map (← decodeMapEntries decode len none)

def decodeCanonicalSet (decode : DecodeM ReplValue) : DecodeM (List ReplValue) := do
  let len ← readLen
  requireRemainingItems len 1
  reserveValueSlots len
  decodeSetItems decode len none

def decodeRecord (decode : DecodeM ReplValue) : DecodeM ReplValue := do
  let name ← readText
  validateTextField "record_name" name
  let len ← readLen
  requireRemainingItems len 2
  reserveValueSlots len
  return .record name (← decodeFields decode len none)

def decodeBitstring : DecodeM ReplValue := do
  let bitLen ← readLen
  let byteLen ← readLen
  let expectedByteLen := (bitLen + 7) / 8
  failIf (byteLen ≠ expectedByteLen)
    (s!"error[tetf_bitstring]: bit length {bitLen} requires {expectedByteLen} "
      ++ s!"bytes, found {byteLen}")
  let bytes ← readExact byteLen
  match VmBitString.fromBytes bytes bitLen with
  | .error error => throw s!"error[tetf_bitstring]: {error.message}"
  | .ok value =>
    failIf (value.bytes ≠ bytes)
      "error[tetf_canonical]: bitstring has non-zero unused trailing bits"
    return .bitString value

/-- The value behind one tag, with `decode` for the values nested in it. -/
def decodeTagged (decode : DecodeM ReplValue) (tag : UInt8) : DecodeM ReplValue :=
  if tag = tagUnit then return .unit
  else if tag = tagFalse then return .bool false
  else if tag = tagTrue then return .bool true
  else if tag = tagInt then return .int (← readU64).toInt64
  else if tag = tagFloatText then return .float (← readText)
  else if tag = tagString then return .string (← readText)
  else if tag = tagAtom then decodeAtom
  else if tag = tagTuple then return .tuple (← decodeSequence decode)
  else if tag = tagList then return .list (← decodeSequence decode)
  else if tag = tagMap then decodeMap decode
  else if tag = tagSet then return .set (← decodeCanonicalSet decode)
  else if tag = tagRecord then decodeRecord decode
  else if tag = tagBytes then do
    let len ← readLen
    return .bytes (← readExact len)
  else if tag = tagBitstring then decodeBitstring
  else throw s!"error[tetf_tag]: unknown runtime value tag {hexByte tag}"

/-- `decode_value`, with `levels` nesting levels left. -/
def decodeValue : Nat → DecodeM ReplValue
  | 0 => throw s!"error[tetf_depth]: nesting exceeds {maxNestingDepth} levels"
  | levels + 1 => do
    let tag ← readU8
    decodeTagged (decodeValue levels) tag

/-! ## Envelope profiles -/

/-- Runs a decoder over a whole payload. -/
def decodeWhole {α : Type} (decoder : Decoder) (decode : DecodeM α) : Except String α :=
  match (do let value ← decode; finish; return value : DecodeM α) decoder with
  | .error e => .error e
  | .ok (value, _) => .ok value

def decodeTetf (bytes : Bytes) (declaredAtoms : List String) : Except String ReplValue :=
  decodeWhole (.new bytes declaredAtoms) do
    readHeader profileRuntimeTerm
    decodeValue maxNestingDepth

def decodeVmRefKind (tag : UInt8) : Except String TetfVmRefKind :=
  if tag = 1 then .ok .process
  else if tag = 2 then .ok .monitor
  else if tag = 3 then .ok .timer
  else if tag = 4 then .ok .resource
  else .error s!"error[tetf_ref]: unknown VM reference kind {tag}"

def decodeVmRef : DecodeM TetfVmRef := do
  expectTag tagVmRef
  let kind ← decodeVmRefKind (← readU8)
  let nodeId ← readText
  let localId ← readU64
  let epoch ← readU64
  let reference : TetfVmRef := ⟨kind, nodeId, localId, epoch⟩
  validateVmRef reference
  return reference

def decodeTetfDistributionEnvelope (bytes : Bytes) (declaredAtoms : List String) :
    Except String TetfDistributionEnvelope :=
  decodeWhole (.new bytes declaredAtoms) do
    readHeader profileDistributionEnvelope
    expectTag tagDistributionEnvelope
    let traceId ← readText
    let fromNodeId ← readText
    let toNodeId ← readText
    let epoch ← readU64
    validateTextField "trace_id" traceId
    validateTextField "from_node_id" fromNodeId
    validateTextField "to_node_id" toNodeId
    validateEpoch epoch
    let referenceCount ← readLen
    requireRemainingItems referenceCount 2
    let refs ← decodeMany decodeVmRef referenceCount
    let payload ← decodeValue maxNestingDepth
    return ⟨traceId, fromNodeId, toNodeId, epoch, refs, payload⟩

/-! ## Logical checkpoints -/

def decodePolicy (tag : UInt8) : Except String VmDistributedStatePolicy :=
  if tag = 1 then .ok .winnerTakesAll
  else if tag = 2 then .ok .lastWriterWins
  else if tag = 3 then .ok .merge
  else if tag = 4 then .ok .explicitUserResolution
  else .error "error[tetf_checkpoint.policy]: invalid conflict policy"

def decodeEntry (previous : Option VmDistributedStateScope) : DecodeM Entry := do
  let stateNamespace ← readText
  let key ← readText
  let scope ← VmDistributedStateScope.new stateNamespace key
  failIf (¬ previous.all fun previous => compare previous scope = .lt)
    "error[tetf_checkpoint.scope]: state scopes are not strictly ordered"
  let ownerNodeId ← readText
  let sequence ← readU64
  let nodeId ← readText
  let version ← VmDistributedStateVersion.new sequence nodeId
  let policy ← decodePolicy (← readU8)
  let value ← decodeValue maxNestingDepth
  let entry : Entry := ⟨scope, ownerNodeId, value, version, policy⟩
  validateEntry entry
  return entry

def decodeEntries : Nat → Option VmDistributedStateScope → DecodeM (List Entry)
  | 0, _ => return []
  | count + 1, previous => do
    let entry ← decodeEntry previous
    let entries ← decodeEntries count (some entry.scope)
    return entry :: entries

def decodeTetfCheckpoint (bytes : Bytes) (declaredAtoms : List String) :
    Except String (List Entry) :=
  if bytes.length > maxCheckpointBytes then
    .error "error[tetf_size]: checkpoint payload exceeds storage limit"
  else
    decodeWhole { Decoder.new bytes declaredAtoms with remainingValueSlots := maxValues } do
      readHeader profileLogicalCheckpoint
      let count ← readLen
      failIf (count > maxEntries) "error[tetf_checkpoint.count]: too many state entries"
      requireRemainingItems count minEntryBytes
      reserveValueSlots count
      decodeEntries count none

end Terlan.TermFormat
