/-
  Encoder of the Terlan external term format, as the source has it: a bounded output buffer,
  the recursive `encodeValue`, and the three envelope profiles.

  `&mut EncodingBuffer` with a `Result` is `EncodeM`. Maps and records first fix the order of
  their entries and then emit each value directly into the output, so `mapEncoders` and
  `fieldEncoders` pair each key with the action that will write its value.

  Allocation failure is not modelled, and neither is the text behind the colon of the error
  for string bytes that are not UTF-8.
-/
import Terlan.Lib.Bytes
import Terlan.Lib.Checked
import Terlan.Lib.Sorted
import Terlan.Lib.Text
import Terlan.DistributedState
import Terlan.TermFormat.Value

namespace Terlan.TermFormat

open Terlan.Lib Terlan.DistributedState
open Std (ExtTreeSet)

/-! ## Constants -/

def magic : Bytes := [0x54, 0x45, 0x54, 0x46]
def version : UInt8 := 1
def maxNestingDepth : Nat := 128
def profileRuntimeTerm : UInt8 := 1
def profileDistributionEnvelope : UInt8 := 2
def profileLogicalCheckpoint : UInt8 := 3

def tagUnit : UInt8 := 0x01
def tagFalse : UInt8 := 0x02
def tagTrue : UInt8 := 0x03
def tagInt : UInt8 := 0x04
def tagFloatText : UInt8 := 0x05
def tagString : UInt8 := 0x06
def tagAtom : UInt8 := 0x07
def tagTuple : UInt8 := 0x09
def tagList : UInt8 := 0x0a
def tagMap : UInt8 := 0x0b
def tagSet : UInt8 := 0x0c
def tagRecord : UInt8 := 0x0d
def tagBytes : UInt8 := 0x0e
def tagBitstring : UInt8 := 0x0f
def tagVmRef : UInt8 := 0x20
def tagDistributionEnvelope : UInt8 := 0x21

/-! ## Envelope data -/

inductive TetfVmRefKind where
  | process
  | monitor
  | timer
  | resource

def TetfVmRefKind.tag : TetfVmRefKind → UInt8
  | .process => 1
  | .monitor => 2
  | .timer => 3
  | .resource => 4

structure TetfVmRef where
  kind : TetfVmRefKind
  nodeId : String
  localId : UInt64
  epoch : UInt64

structure TetfDistributionEnvelope where
  traceId : String
  fromNodeId : String
  toNodeId : String
  epoch : UInt64
  refs : List TetfVmRef
  payload : ReplValue

/-- Entry of a logical checkpoint. -/
abbrev Entry := VmDistributedStateEntry ReplValue

/-! ## The output buffer -/

structure EncodingBuffer where
  bytes : Bytes
  maximum : Nat
deriving DecidableEq

abbrev EncodeM := StateT EncodingBuffer (Except String)

def EncodingBuffer.new (maximum : Nat) : EncodingBuffer := ⟨[], maximum⟩

def EncodingBuffer.remaining (buffer : EncodingBuffer) : Nat :=
  buffer.maximum - buffer.bytes.length

def require (additional : Nat) : EncodeM Unit := do
  failIf (additional > (← get).remaining) "error[tetf_size]: encoded term exceeds byte limit"

def extendFromSlice (bytes : Bytes) : EncodeM Unit := do
  require bytes.length
  modify fun buffer => { buffer with bytes := buffer.bytes ++ bytes }

def push (byte : UInt8) : EncodeM Unit := extendFromSlice [byte]

/-- The bytes that an action writes into a new buffer. -/
def encodedInto (maximum : Nat) (action : EncodeM Unit) : Except String Bytes :=
  match action (.new maximum) with
  | .error e => .error e
  | .ok ((), buffer) => .ok buffer.bytes

def writeLen (len : Nat) : EncodeM Unit :=
  if len < 2 ^ 32 then extendFromSlice (beBytes 4 len)
  else throw "error[tetf_size]: term length exceeds TETF v1 u32 limit"

def writeText (value : String) : EncodeM Unit := do
  writeLen (asBytes value).length
  extendFromSlice (asBytes value)

def writeU64 (value : UInt64) : EncodeM Unit := extendFromSlice (beBytes 8 value.toNat)

/-! ## Validation -/

def validateTextField (field value : String) : Except String Unit :=
  if isBlank value then .error s!"error[tetf_invalid_metadata]: `{field}` must not be empty"
  else .ok ()

def validateEpoch (epoch : UInt64) : Except String Unit :=
  if epoch = 0 then .error "error[tetf_stale_ref]: VM reference epoch must be non-zero"
  else .ok ()

def validateVmRef (reference : TetfVmRef) : Except String Unit := do
  validateTextField "node_id" reference.nodeId
  failIf (reference.localId = 0) "error[tetf_invalid_ref]: VM reference local id must be non-zero"
  validateEpoch reference.epoch

/-- `field.starts_with("$native_")`. -/
def isNativeField (field : String) : Bool := "$native_".toList.isPrefixOf field.toList

def validateRecordField (field : String) : Except String Unit := do
  validateTextField "record_field" field
  failIf (isNativeField field)
    ("error[tetf_unsupported]: actor-local native handles cannot cross a node "
      ++ "boundary")

/-! ## Values -/

/-- The encodings of a set's items: a `BTreeSet` that is filled while `remaining` counts down
for each new item. -/
def collectSetItems (maximum : Nat) :
    List (EncodeM Unit) → Nat → ExtTreeSet Bytes → Except String (ExtTreeSet Bytes)
  | [], _, ordered => .ok ordered
  | item :: items, remaining, ordered => do
    -- a duplicate may use the entire budget again
    let encoded ← encodedInto maximum item
    if ordered.contains encoded then collectSetItems maximum items remaining ordered
    else if encoded.length > remaining then
      throw "error[tetf_size]: set items exceed byte limit"
    else
      collectSetItems maximum items (remaining - encoded.length) (ordered.insert encoded)

mutual

/-- `encode_value`. -/
def encodeValue (declaredAtoms : List String) : ReplValue → Nat → EncodeM Unit
  | value, depth => do
    failIf (depth ≥ maxNestingDepth) s!"error[tetf_depth]: nesting exceeds {maxNestingDepth} levels"
    match value with
    | .closure _ _ _ =>
      throw "error[tetf_function]: executable closures are local to their admitted image"
    | .unit => push tagUnit
    | .bool false => push tagFalse
    | .bool true => push tagTrue
    | .int value => do
      push tagInt
      extendFromSlice (beBytes 8 value.toUInt64.toNat)
    | .float value => do
      push tagFloatText
      writeText value
    | .string value => do
      push tagString
      writeText value
    | .stringBytes value =>
      match fromUtf8 value with
      | none => throw "error[tetf_string_utf8]: invalid utf-8 sequence"
      | some value => do
        push tagString
        writeText value
    | .bytes value => do
      push tagBytes
      writeLen value.length
      extendFromSlice value
    | .bitString value => do
      push tagBitstring
      writeLen value.bitLen
      writeLen value.bytes.length
      extendFromSlice value.bytes
    | .atom value => do
      failIf (¬ declaredAtoms.any (· = value))
        s!"error[tetf_atom]: atom `{value}` is not in the declared atom manifest"
      push tagAtom
      writeText value
    | .tuple items => do
      push tagTuple
      writeLen items.length
      encodeItems declaredAtoms items (depth + 1)
    | .record name fields => do
      validateTextField "record_name" name
      push tagRecord
      writeText name
      writeLen fields.length
      -- every valid field needs a length, a nonempty name and a value tag
      failIf (fields.length > (← get).remaining / 6)
        "error[tetf_size]: record fields exceed byte limit"
      let ordered := sortByKey Prod.fst (fieldEncoders declaredAtoms fields (depth + 1))
      match (windows2 ordered).find? fun pair => pair.1.1 = pair.2.1 with
      | some pair =>
        throw s!"error[tetf_canonical]: duplicate record field `{pair.1.1}`"
      | none =>
        ordered.forM fun (field, encodeField) => do
          validateRecordField field
          writeText field
          encodeField
    | .list items => do
      push tagList
      writeLen items.length
      encodeItems declaredAtoms items (depth + 1)
    | .map entries => do
      push tagMap
      writeLen entries.length
      failIf (entries.length > (← get).remaining / 2)
        "error[tetf_size]: map entries exceed byte limit"
      let encoded ← mapEncoders declaredAtoms entries (depth + 1) (← get).remaining
      let ordered := sortByKey Prod.fst encoded
      failIf ((windows2 ordered).any fun pair => pair.1.1 = pair.2.1)
        "error[tetf_canonical]: duplicate map key"
      ordered.forM fun (key, encodeEntry) => do
        extendFromSlice key
        encodeEntry
    | .set items => do
      push tagSet
      require 4
      let maximum := (← get).remaining - 4
      let ordered ← collectSetItems maximum (itemEncoders declaredAtoms items (depth + 1))
        maximum ∅
      writeLen ordered.size
      ordered.toList.forM extendFromSlice

/-- Encodes the items of a tuple or a list one after the other. -/
def encodeItems (declaredAtoms : List String) : List ReplValue → Nat → EncodeM Unit
  | [], _ => pure ()
  | item :: items, depth => do
    encodeValue declaredAtoms item depth
    encodeItems declaredAtoms items depth

/-- The action that encodes each item of a set. -/
def itemEncoders (declaredAtoms : List String) : List ReplValue → Nat → List (EncodeM Unit)
  | [], _ => []
  | item :: items, depth =>
    encodeValue declaredAtoms item depth :: itemEncoders declaredAtoms items depth

/-- Each field name with the action that encodes its value. -/
def fieldEncoders (declaredAtoms : List String) :
    List (String × ReplValue) → Nat → List (String × EncodeM Unit)
  | [], _ => []
  | (field, value) :: fields, depth =>
    (field, encodeValue declaredAtoms value depth) :: fieldEncoders declaredAtoms fields depth

/-- Each encoded key with the action that encodes its value; `remaining` bounds the keys. -/
def mapEncoders (declaredAtoms : List String) :
    List (ReplValue × ReplValue) → Nat → Nat → Except String (List (Bytes × EncodeM Unit))
  | [], _, _ => .ok []
  | (key, value) :: entries, depth, remaining => do
    let encoded ← encodedInto remaining (encodeValue declaredAtoms key depth)
    let rest ← mapEncoders declaredAtoms entries depth (remaining - encoded.length)
    pure ((encoded, encodeValue declaredAtoms value depth) :: rest)

end

/-! ## Envelope profiles -/

/-- Magic, version and profile. -/
def writeHeader (profile : UInt8) : EncodeM Unit := do
  extendFromSlice magic
  push version
  push profile

def encodeTetf (value : ReplValue) (declaredAtoms : List String) : Except String Bytes :=
  encodedInto usizeMax do
    writeHeader profileRuntimeTerm
    encodeValue declaredAtoms value 0

def encodeVmRef (reference : TetfVmRef) : EncodeM Unit := do
  validateVmRef reference
  push tagVmRef
  push reference.kind.tag
  writeText reference.nodeId
  writeU64 reference.localId
  writeU64 reference.epoch

def encodeTetfDistributionEnvelopeBounded (envelope : TetfDistributionEnvelope)
    (declaredAtoms : List String) (maximum : Nat) : Except String Bytes := do
  validateTextField "trace_id" envelope.traceId
  validateTextField "from_node_id" envelope.fromNodeId
  validateTextField "to_node_id" envelope.toNodeId
  validateEpoch envelope.epoch
  encodedInto maximum do
    writeHeader profileDistributionEnvelope
    push tagDistributionEnvelope
    writeText envelope.traceId
    writeText envelope.fromNodeId
    writeText envelope.toNodeId
    writeU64 envelope.epoch
    writeLen envelope.refs.length
    envelope.refs.forM encodeVmRef
    encodeValue declaredAtoms envelope.payload 0

/-! ## Logical checkpoints -/

def maxEntries : Nat := 16384
def maxValues : Nat := 65536
def minEntryBytes : Nat := 30

/-- `terlan_storage::MAX_CHECKPOINT_BYTES`. -/
def maxCheckpointBytes : Nat := 16 * 1024 * 1024

/-- `i64::MAX`. -/
def i64Max : Nat := 2 ^ 63 - 1

def takeValue (remaining : Nat) : Except String Nat :=
  if remaining = 0 then .error "error[tetf_checkpoint.values]: too many logical values"
  else .ok (remaining - 1)

mutual

/-- The value budget left after a value and everything nested in it. -/
def validateValueBudget : ReplValue → Nat → Nat → Except String Nat
  | value, remaining, depth => do
    failIf (depth ≥ maxNestingDepth) "error[tetf_depth]: checkpoint value nesting exceeds limit"
    let remaining ← takeValue remaining
    match value with
    | .tuple items | .list items | .set items => validateItemsBudget items remaining (depth + 1)
    | .map entries => validateEntriesBudget entries remaining (depth + 1)
    | .record _ fields => validateFieldsBudget fields remaining (depth + 1)
    | _ => pure remaining

def validateItemsBudget : List ReplValue → Nat → Nat → Except String Nat
  | [], remaining, _ => .ok remaining
  | item :: items, remaining, depth => do
    let remaining ← validateValueBudget item remaining depth
    validateItemsBudget items remaining depth

def validateEntriesBudget : List (ReplValue × ReplValue) → Nat → Nat → Except String Nat
  | [], remaining, _ => .ok remaining
  | (key, value) :: entries, remaining, depth => do
    let remaining ← validateValueBudget key remaining depth
    let remaining ← validateValueBudget value remaining depth
    validateEntriesBudget entries remaining depth

def validateFieldsBudget : List (String × ReplValue) → Nat → Nat → Except String Nat
  | [], remaining, _ => .ok remaining
  | (_, value) :: fields, remaining, depth => do
    let remaining ← validateValueBudget value remaining depth
    validateFieldsBudget fields remaining depth

end

def validateEntry (entry : Entry) : Except String Unit :=
  if entry.scope.stateNamespace = "" ∨ entry.scope.key = "" ∨ entry.ownerNodeId = "" ∨
      entry.version.nodeId = "" ∨ entry.version.sequence = 0 ∨
      entry.version.sequence.toNat > i64Max then
    .error "error[tetf_checkpoint.metadata]: invalid state identity or version"
  else .ok ()

/-- The byte that stands for a conflict policy. -/
def policyTag : VmDistributedStatePolicy → UInt8
  | .winnerTakesAll => 1
  | .lastWriterWins => 2
  | .merge => 3
  | .explicitUserResolution => 4

def encodeEntry (declaredAtoms : List String) (entry : Entry) : EncodeM Unit := do
  validateEntry entry
  writeText entry.scope.stateNamespace
  writeText entry.scope.key
  writeText entry.ownerNodeId
  writeU64 entry.version.sequence
  writeText entry.version.nodeId
  push (policyTag entry.policy)
  encodeValue declaredAtoms entry.value 0

def encodeTetfCheckpoint (entries : List Entry) (declaredAtoms : List String) (maximum : Nat) :
    Except String Bytes := do
  failIf (entries.length > maxEntries) "error[tetf_checkpoint.count]: too many state entries"
  let _ ← validateItemsBudget (entries.map (·.value)) maxValues 0
  encodedInto (min maximum maxCheckpointBytes) do
    writeHeader profileLogicalCheckpoint
    writeLen entries.length
    failIf (entries.length > (← get).remaining / minEntryBytes)
      "error[tetf_size]: checkpoint entries exceed byte limit"
    let ordered := sortByKey (·.scope) entries
    failIf ((windows2 ordered).any fun pair => pair.1.scope = pair.2.scope)
      "error[tetf_checkpoint.scope]: duplicate state scope"
    ordered.forM (encodeEntry declaredAtoms)

end Terlan.TermFormat
