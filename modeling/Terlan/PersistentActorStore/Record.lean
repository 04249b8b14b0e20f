/-
  The records of a persistent actor store and their lines in the log. A snapshot or an event
  is one line of fields separated by tabs: texts and bytes in hexadecimal, numbers in decimal,
  lists separated by commas. Only scalar values have a line.

  * `parse_encodeRecord`: a record reads back from its line.
  * `encodeRecord_plain`: no line has a line break in it.
-/
import Terlan.Lib.Checked
import Terlan.Lib.Fields
import Terlan.Lib.Text
import Terlan.Lib.TreeMap
import Terlan.TermFormat.Value

namespace Terlan.PersistentActorStore

open Terlan.Lib Terlan.TermFormat List
open Std (TransOrd TransCmp LawfulEqOrd)

/-! ## Records -/

/-- Why a record cannot be built, read or written. -/
inductive RecordFault where
  | invalid (message : String)
  | unknownShape
  | hexLength (value : List Char)
  | hexDigit (byte : UInt8)
  | utf8 (value : List Char)
  | number (label : String) (value : List Char) (error : ParseIntError)
  | boolean (rest : List Char)
  | unknownValue (value : List Char)
  | cannotEncode (value : ReplValue)
deriving DecidableEq

structure VmPersistentActorId where
  value : String
  nonempty : value ≠ ""
deriving DecidableEq

namespace VmPersistentActorId

def new (value : String) : Except RecordFault VmPersistentActorId :=
  if empty : value = "" then
    .error (.invalid "error[vm_persistent_actor]: actor id must be non-empty")
  else .ok ⟨value, empty⟩

instance : Ord VmPersistentActorId where
  compare := compareOn (·.value)

instance : TransOrd VmPersistentActorId := inferInstanceAs (TransCmp (compareOn _))

instance : LawfulEqOrd VmPersistentActorId :=
  lawfulEqCmp_compareOn fun
    | ⟨_, _⟩, ⟨_, _⟩, h => by cases h; rfl

end VmPersistentActorId

structure VmPersistentActorSchema where
  id : String
  version : UInt64
  named : id ≠ ""
  versioned : version ≠ 0
deriving DecidableEq

def VmPersistentActorSchema.new (id : String) (version : UInt64) :
    Except RecordFault VmPersistentActorSchema :=
  if unnamed : id = "" then
    .error (.invalid "error[vm_persistent_actor]: schema id must be non-empty")
  else if zero : version = 0 then
    .error (.invalid "error[vm_persistent_actor]: schema version must be non-zero")
  else .ok ⟨id, version, unnamed, zero⟩

/-- Checkpoint of an actor, taken after the event it names last. -/
structure VmPersistentActorSnapshot where
  actorId : VmPersistentActorId
  schema : VmPersistentActorSchema
  generation : UInt64
  state : ReplValue
  mailboxCheckpoint : List ReplValue
  timerCheckpoint : List UInt64
  resourceHandles : List String
  lastEventSequence : UInt64
  generated : generation ≠ 0
  handled : ∀ handle ∈ resourceHandles, handle ≠ ""

def VmPersistentActorSnapshot.new (actorId : VmPersistentActorId)
    (schema : VmPersistentActorSchema) (generation : UInt64) (state : ReplValue)
    (mailboxCheckpoint : List ReplValue) (timerCheckpoint : List UInt64)
    (resourceHandles : List String) (lastEventSequence : UInt64) :
    Except RecordFault VmPersistentActorSnapshot :=
  if zero : generation = 0 then
    .error (.invalid "error[vm_persistent_actor]: snapshot generation must be non-zero")
  else if unnamed : ∃ handle ∈ resourceHandles, handle = "" then
    .error (.invalid "error[vm_persistent_actor]: resource handles must be non-empty")
  else
    .ok
      { actorId, schema, generation, state, mailboxCheckpoint, timerCheckpoint, resourceHandles
        lastEventSequence
        generated := zero
        handled := fun handle mem empty => unnamed ⟨handle, mem, empty⟩ }

structure VmPersistentActorEvent where
  actorId : VmPersistentActorId
  schema : VmPersistentActorSchema
  sequence : UInt64
  payload : ReplValue
  sequenced : sequence ≠ 0
deriving DecidableEq

def VmPersistentActorEvent.new (actorId : VmPersistentActorId) (schema : VmPersistentActorSchema)
    (sequence : UInt64) (payload : ReplValue) : Except RecordFault VmPersistentActorEvent :=
  if zero : sequence = 0 then
    .error (.invalid "error[vm_persistent_actor]: event sequence must be non-zero")
  else .ok ⟨actorId, schema, sequence, payload, zero⟩

inductive FileBackedRecord where
  | snapshot (snapshot : VmPersistentActorSnapshot)
  | event (event : VmPersistentActorEvent)

/-! ## Hexadecimal text -/

def hexEncode (bytes : List UInt8) : List Char :=
  bytes.flatMap fun byte : UInt8 =>
    [Nat.digitChar (byte >>> 4).toNat, Nat.digitChar (byte &&& 0x0f).toNat]

def hexValue (byte : UInt8) : Except RecordFault UInt8 :=
  if 48 ≤ byte ∧ byte ≤ 57 then .ok (byte - 48)
  else if 97 ≤ byte ∧ byte ≤ 102 then .ok (byte - 97 + 10)
  else if 65 ≤ byte ∧ byte ≤ 70 then .ok (byte - 65 + 10)
  else .error (.hexDigit byte)

/-- Two digits a byte; the text has been found to have an even number of them. -/
def hexPairs : List UInt8 → Except RecordFault (List UInt8)
  | high :: low :: rest => do
    let high ← hexValue high
    let low ← hexValue low
    let bytes ← hexPairs rest
    return (high <<< 4 ||| low) :: bytes
  | _ => .ok []

def hexDecode (value : List Char) : Except RecordFault (List UInt8) :=
  let text := asBytes (String.ofList value)
  if text.length % 2 ≠ 0 then .error (.hexLength value) else hexPairs text

def hexDecodeString (value : List Char) : Except RecordFault String := do
  match fromUtf8 (← hexDecode value) with
  | some text => return text
  | none => throw (.utf8 value)

/-! ## Values -/

/-- Only scalar values have an encoding. -/
def encodeReplValue : ReplValue → Except RecordFault (List Char)
  | .unit => .ok ['u']
  | .int value => .ok ('i' :: ':' :: displayI64 value)
  | .string text => .ok ('s' :: ':' :: hexEncode (asBytes text))
  | .atom name => .ok ('a' :: ':' :: hexEncode (asBytes name))
  | .bool value => .ok ('b' :: ':' :: if value then "true".toList else "false".toList)
  | .bytes bytes => .ok ('x' :: ':' :: hexEncode bytes)
  | other => .error (.cannotEncode other)

def encodeReplValues (values : List ReplValue) : Except RecordFault (List Char) :=
  [','].intercalate <$> values.mapM encodeReplValue

def encodeU64Values (values : List UInt64) : List Char := [','].intercalate (values.map displayU64)

def encodeStrings (values : List String) : List Char :=
  [','].intercalate (values.map fun value => hexEncode (asBytes value))

def parseNumber {α : Type} (parse : List Char → Except ParseIntError α) (value : List Char)
    (label : String) : Except RecordFault α :=
  (parse value).mapError (.number label value)

def parseReplValue : List Char → Except RecordFault ReplValue
  | ['u'] => .ok .unit
  | 'i' :: ':' :: rest => .int <$> parseNumber parseI64 rest "integer value"
  | 's' :: ':' :: rest => .string <$> hexDecodeString rest
  | 'a' :: ':' :: rest => .atom <$> hexDecodeString rest
  | 'x' :: ':' :: rest => .bytes <$> hexDecode rest
  | 'b' :: ':' :: rest =>
    if rest = "true".toList then .ok (.bool true)
    else if rest = "false".toList then .ok (.bool false)
    else .error (.boolean rest)
  | value => .error (.unknownValue value)

/-- A list is empty or its items are separated by commas. -/
def parseList {α : Type} (parse : List Char → Except RecordFault α) (value : List Char) :
    Except RecordFault (List α) :=
  if value = [] then .ok [] else (value.splitOn ',').mapM parse

def parseReplValues : List Char → Except RecordFault (List ReplValue) := parseList parseReplValue

def parseU64Values : List Char → Except RecordFault (List UInt64) :=
  parseList fun item => parseNumber parseU64 item "u64 list item"

def parseStrings : List Char → Except RecordFault (List String) := parseList hexDecodeString

/-! ## Lines -/

def encodeSnapshotRecord (snapshot : VmPersistentActorSnapshot) :
    Except RecordFault (List Char) := do
  let state ← encodeReplValue snapshot.state
  let mailbox ← encodeReplValues snapshot.mailboxCheckpoint
  return ['\t'].intercalate
    ["snapshot".toList, hexEncode (asBytes snapshot.actorId.value),
      hexEncode (asBytes snapshot.schema.id), displayU64 snapshot.schema.version,
      displayU64 snapshot.generation, displayU64 snapshot.lastEventSequence, state, mailbox,
      encodeU64Values snapshot.timerCheckpoint, encodeStrings snapshot.resourceHandles]

def encodeEventRecord (event : VmPersistentActorEvent) : Except RecordFault (List Char) := do
  let payload ← encodeReplValue event.payload
  return ['\t'].intercalate
    ["event".toList, hexEncode (asBytes event.actorId.value),
      hexEncode (asBytes event.schema.id), displayU64 event.schema.version,
      displayU64 event.sequence, payload]

def parseSnapshotFields (actor schemaId schemaVersion generation lastEventSequence state mailbox
    timers resources : List Char) : Except RecordFault FileBackedRecord := do
  let actorId ← VmPersistentActorId.new (← hexDecodeString actor)
  let schema ← VmPersistentActorSchema.new (← hexDecodeString schemaId)
    (← parseNumber parseU64 schemaVersion "schema version")
  let generation ← parseNumber parseU64 generation "snapshot generation"
  let state ← parseReplValue state
  let mailboxCheckpoint ← parseReplValues mailbox
  let timerCheckpoint ← parseU64Values timers
  let resourceHandles ← parseStrings resources
  let lastEventSequence ← parseNumber parseU64 lastEventSequence "last event sequence"
  let snapshot ← VmPersistentActorSnapshot.new actorId schema generation state mailboxCheckpoint
    timerCheckpoint resourceHandles lastEventSequence
  return .snapshot snapshot

def parseEventFields (actor schemaId schemaVersion sequence payload : List Char) :
    Except RecordFault FileBackedRecord := do
  let actorId ← VmPersistentActorId.new (← hexDecodeString actor)
  let schema ← VmPersistentActorSchema.new (← hexDecodeString schemaId)
    (← parseNumber parseU64 schemaVersion "schema version")
  let sequence ← parseNumber parseU64 sequence "event sequence"
  let payload ← parseReplValue payload
  let event ← VmPersistentActorEvent.new actorId schema sequence payload
  return .event event

def parseFileBackedRecord (line : List Char) : Except RecordFault FileBackedRecord :=
  match line.splitOn '\t' with
  | [tag, actor, schemaId, schemaVersion, generation, lastEventSequence, state, mailbox, timers,
      resources] =>
      if tag = "snapshot".toList then
        parseSnapshotFields actor schemaId schemaVersion generation lastEventSequence state mailbox
          timers resources
      else .error .unknownShape
  | [tag, actor, schemaId, schemaVersion, sequence, payload] =>
    if tag = "event".toList then
      parseEventFields actor schemaId schemaVersion sequence payload
    else .error .unknownShape
  | _ => .error .unknownShape

/-! ## What encoded fields are made of -/

/-- Hexadecimal digits, a sign, or one of the letters and the colon of an encoded value. -/
def isFieldChar (c : Char) : Bool := c.isAlphanum || c = '-' || c = ':'

theorem digitChar_isAlphanum : ∀ n : Fin 16, (Nat.digitChar n).isAlphanum = true := by decide

theorem hexDigits_lt (byte : UInt8) : (byte >>> 4).toNat < 16 ∧ (byte &&& 0x0f).toNat < 16 := by
  have bound := byte.toNat_lt
  have high : (byte >>> 4).toNat = byte.toNat / 16 := by
    simpa using Nat.shiftRight_eq_div_pow byte.toNat 4
  have low : (byte &&& 0x0f).toNat = byte.toNat % 16 := by
    simpa using Nat.and_two_pow_sub_one_eq_mod byte.toNat 4
  omega

variable {c : Char}

theorem isFieldChar_of_mem_hexEncode {bytes : List UInt8} (h : c ∈ hexEncode bytes) :
    isFieldChar c := by
  unfold hexEncode at h
  obtain ⟨byte, -, mem⟩ := mem_flatMap.mp h
  obtain ⟨high, low⟩ := hexDigits_lt byte
  have alphanumeric : c.isAlphanum := by
    simp only [mem_cons, not_mem_nil, or_false] at mem
    rcases mem with rfl | rfl
    · exact digitChar_isAlphanum ⟨_, high⟩
    · exact digitChar_isAlphanum ⟨_, low⟩
  simp [isFieldChar, alphanumeric]

theorem isFieldChar_of_isDigit (h : c.isDigit) : isFieldChar c := by
  simp [isFieldChar, Char.isAlphanum, h]

theorem isFieldChar_of_mem_displayU64 {n : UInt64} (h : c ∈ displayU64 n) : isFieldChar c :=
  isFieldChar_of_isDigit (isDigit_of_mem_displayU64 h)

variable {text : List Char} {value : ReplValue}

theorem isFieldChar_of_mem_encodeReplValue
    (encoded : encodeReplValue value = .ok text) (h : c ∈ text) : isFieldChar c := by
  have tagged {tag : Char} {rest : List Char} (tagChar : isFieldChar tag)
      (restChars : ∀ c ∈ rest, isFieldChar c) (mem : c ∈ tag :: ':' :: rest) : isFieldChar c := by
    rcases mem_cons.mp mem with rfl | mem
    · exact tagChar
    · rcases mem_cons.mp mem with rfl | mem
      · rfl
      · exact restChars c mem
  cases value with
  | unit =>
    cases encoded
    rw [mem_singleton.mp h]
    rfl
  | int value =>
    cases encoded
    refine tagged rfl (fun c mem => ?_) h
    rcases isDigit_or_of_mem_displayI64 mem with rfl | digit
    · rfl
    · exact isFieldChar_of_isDigit digit
  | string | atom | bytes =>
    cases encoded
    exact tagged rfl (fun _ => isFieldChar_of_mem_hexEncode) h
  | bool value =>
    cases encoded
    refine tagged rfl (fun c mem => ?_) h
    cases value <;> simp at mem <;> rcases mem with rfl | rfl | rfl | rfl | rfl <;> rfl
  | _ => cases encoded

theorem encodeReplValue_ne_nil (encoded : encodeReplValue value = .ok text) : text ≠ [] := by
  rintro rfl
  cases value <;> cases encoded

theorem displayU64_ne_nil (n : UInt64) : displayU64 n ≠ [] := Nat.toDigits_ne_nil

theorem hexEncode_ne_nil {text : String} (h : text ≠ "") : hexEncode (asBytes text) ≠ [] := by
  intro empty
  apply h
  apply asBytes_injective
  cases bytes : asBytes text with
  | nil => rfl
  | cons byte rest => simp [hexEncode, bytes] at empty

/-! ## Written fields read back -/

theorem asBytes_ofList_of_ascii {cs : List Char} (ascii : ∀ c ∈ cs, c.utf8Size = 1) :
    asBytes (String.ofList cs) = cs.map fun c => c.val.toUInt8 := by
  change (cs.flatMap String.utf8EncodeChar).toByteArray.data.toList = _
  rw [toList_data_toByteArray]
  induction cs with
  | nil => rfl
  | cons c cs ih =>
    rw [flatMap_cons, map_cons, ih fun c mem => ascii c (mem_cons_of_mem _ mem),
      String.utf8EncodeChar_eq_singleton (ascii c mem_cons_self), singleton_append]

theorem digitChar_utf8Size : ∀ n : Fin 16, (Nat.digitChar n).utf8Size = 1 := by decide

theorem hexValue_digitChar :
    ∀ n : Fin 16, hexValue (Nat.digitChar n).val.toUInt8 = .ok (UInt8.ofNat n) := by
  decide

theorem byte_halves (byte : UInt8) : (byte >>> 4) <<< 4 ||| (byte &&& 0x0f) = byte := by
  have all : ∀ n : Fin 256, (UInt8.ofNat n >>> 4) <<< 4 ||| (UInt8.ofNat n &&& 0x0f) =
      UInt8.ofNat n := by
    decide +kernel
  simpa using all ⟨byte.toNat, byte.toNat_lt⟩

theorem utf8Size_of_mem_hexEncode {bytes : List UInt8} (h : c ∈ hexEncode bytes) :
    c.utf8Size = 1 := by
  unfold hexEncode at h
  obtain ⟨byte, -, mem⟩ := mem_flatMap.mp h
  obtain ⟨high, low⟩ := hexDigits_lt byte
  simp only [mem_cons, not_mem_nil, or_false] at mem
  rcases mem with rfl | rfl
  · exact digitChar_utf8Size ⟨_, high⟩
  · exact digitChar_utf8Size ⟨_, low⟩

variable (bytes : List UInt8)

theorem hexPairs_hexEncode :
    hexPairs ((hexEncode bytes).map fun c => c.val.toUInt8) = .ok bytes := by
  induction bytes with
  | nil => rfl
  | cons byte bytes ih =>
    obtain ⟨high, low⟩ := hexDigits_lt byte
    have highValue := hexValue_digitChar ⟨_, high⟩
    have lowValue := hexValue_digitChar ⟨_, low⟩
    have halves : (UInt8.ofNat (byte >>> 4).toNat) <<< 4 ||| UInt8.ofNat (byte &&& 0x0f).toNat =
        byte := by
      rw [UInt8.ofNat_toNat, UInt8.ofNat_toNat, byte_halves]
    simp only [hexEncode, flatMap_cons, cons_append, nil_append, map_cons,
      hexPairs] at ih ⊢
    rw [highValue, lowValue, ih]
    exact congrArg (fun byte => Except.ok (byte :: bytes)) halves

theorem length_hexEncode : (hexEncode bytes).length = 2 * bytes.length := by
  induction bytes with
  | nil => rfl
  | cons byte bytes ih =>
    simp only [hexEncode, flatMap_cons, length_append, length_cons,
      length_nil] at ih ⊢
    omega

theorem hexDecode_hexEncode : hexDecode (hexEncode bytes) = .ok bytes := by
  have text := asBytes_ofList_of_ascii fun c (mem : c ∈ hexEncode bytes) =>
    utf8Size_of_mem_hexEncode mem
  unfold hexDecode
  simp only [text]
  rw [if_neg (by rw [length_map, length_hexEncode]; omega), hexPairs_hexEncode]

theorem hexDecodeString_hexEncode (text : String) :
    hexDecodeString (hexEncode (asBytes text)) = .ok text := by
  unfold hexDecodeString
  rw [hexDecode_hexEncode]
  simp only [bind, Except.bind, fromUtf8_asBytes]
  rfl

theorem parseReplValue_encodeReplValue
    (encoded : encodeReplValue value = .ok text) : parseReplValue text = .ok value := by
  cases value with
  | unit => cases encoded; rfl
  | int value =>
    cases encoded
    change ReplValue.int <$> parseNumber parseI64 (displayI64 value) "integer value" = _
    rw [parseNumber, parseI64_displayI64]
    rfl
  | string text =>
    cases encoded
    change ReplValue.string <$> hexDecodeString (hexEncode (asBytes text)) = _
    rw [hexDecodeString_hexEncode]
    rfl
  | atom name =>
    cases encoded
    change ReplValue.atom <$> hexDecodeString (hexEncode (asBytes name)) = _
    rw [hexDecodeString_hexEncode]
    rfl
  | bytes bytes =>
    cases encoded
    change ReplValue.bytes <$> hexDecode (hexEncode bytes) = _
    rw [hexDecode_hexEncode]
    rfl
  | bool value => cases encoded; cases value <;> rfl
  | _ => cases encoded

/-- Lists of fields that are not empty and have no comma in them read back. -/
theorem parseList_intercalate {α : Type} {parse : List Char → Except RecordFault α}
    {items : List α} {texts : List (List Char)}
    (written : List.Forall₂ (fun item text => parse text = .ok item) items texts)
    (plain : ∀ text ∈ texts, text ≠ [] ∧ ∀ c ∈ text, isFieldChar c) :
    parseList parse ([','].intercalate texts) = .ok items := by
  have parsed : texts.mapM parse = .ok items := by
    clear plain
    induction written with
    | nil => rfl
    | cons head _ ih =>
      rw [mapM_cons, head, ih]
      rfl
  cases texts with
  | nil =>
    cases written
    rfl
  | cons text texts =>
    have first := plain text mem_cons_self
    have nonempty : [','].intercalate (text :: texts) ≠ [] := by
      cases texts with
      | nil => simpa [List.intercalate] using first.1
      | cons next texts => simp [intercalate_cons_cons, first.1]
    have commas (text' : List Char) (mem : text' ∈ text :: texts) : ',' ∉ text' := by
      intro comma
      exact absurd ((plain text' mem).2 ',' comma) (by decide)
    rw [parseList, if_neg nonempty, splitOn_intercalate_fields (cons_ne_nil _ _) commas,
      parsed]

variable {values : List ReplValue}

theorem parseReplValues_encodeReplValues
    (encoded : encodeReplValues values = .ok text) : parseReplValues text = .ok values := by
  unfold encodeReplValues at encoded
  cases written : values.mapM encodeReplValue with
  | error fault => rw [written] at encoded; cases encoded
  | ok texts =>
    rw [written] at encoded
    cases encoded
    have each := mapM_ok_iff.mp written
    apply parseList_intercalate
    · exact each.imp fun _ _ encoded => parseReplValue_encodeReplValue encoded
    · intro text mem
      obtain ⟨value, -, encoded⟩ := Forall₂.exists_of_mem_right each mem
      exact ⟨encodeReplValue_ne_nil encoded, fun _ => isFieldChar_of_mem_encodeReplValue encoded⟩

theorem parseU64Values_encodeU64Values (values : List UInt64) :
    parseU64Values (encodeU64Values values) = .ok values := by
  apply parseList_intercalate
  · refine List.forall₂_map_right_iff.mpr (List.forall₂_same.mpr fun value _ => ?_)
    rw [parseNumber, parseU64_displayU64]
    rfl
  · intro text mem
    obtain ⟨value, -, rfl⟩ := mem_map.mp mem
    exact ⟨displayU64_ne_nil value, fun _ => isFieldChar_of_mem_displayU64⟩

theorem parseStrings_encodeStrings {values : List String} (named : ∀ value ∈ values, value ≠ "") :
    parseStrings (encodeStrings values) = .ok values := by
  apply parseList_intercalate
  · exact List.forall₂_map_right_iff.mpr
      (List.forall₂_same.mpr fun value _ => hexDecodeString_hexEncode value)
  · intro text mem
    obtain ⟨value, listed, rfl⟩ := mem_map.mp mem
    exact ⟨hexEncode_ne_nil (named value listed), fun _ => isFieldChar_of_mem_hexEncode⟩

/-! ## Lines read back -/

/-- The line of either record. -/
def encodeRecord : FileBackedRecord → Except RecordFault (List Char)
  | .snapshot snapshot => encodeSnapshotRecord snapshot
  | .event event => encodeEventRecord event

/-- A character of a list of encoded fields. -/
def isListChar (c : Char) : Bool := isFieldChar c || c = ','

theorem isListChar_of_field (h : ∀ c ∈ text, isFieldChar c) : ∀ c ∈ text, isListChar c := by
  intro c mem
  simp [isListChar, h c mem]

theorem isListChar_of_mem_intercalate {texts : List (List Char)}
    (plain : ∀ text ∈ texts, ∀ c ∈ text, isFieldChar c) :
    ∀ c ∈ [','].intercalate texts, isListChar c := by
  intro c mem
  by_contra other
  have notComma : c ≠ ',' := by
    rintro rfl
    exact other rfl
  refine notMem_intercalate (by simpa using notComma) (fun text listed mem => ?_) mem
  exact other (isListChar_of_field (plain text listed) c mem)

theorem isListChar_of_mem_encodeReplValues
    (encoded : encodeReplValues values = .ok text) : ∀ c ∈ text, isListChar c := by
  unfold encodeReplValues at encoded
  cases written : values.mapM encodeReplValue with
  | error fault => rw [written] at encoded; cases encoded
  | ok texts =>
    rw [written] at encoded
    cases encoded
    apply isListChar_of_mem_intercalate
    intro text mem
    obtain ⟨value, -, encoded⟩ := Forall₂.exists_of_mem_right (mapM_ok_iff.mp written) mem
    exact fun _ => isFieldChar_of_mem_encodeReplValue encoded

/-- The fields of a line. -/
def recordFields : FileBackedRecord → Except RecordFault (List (List Char))
  | .snapshot snapshot => do
    let state ← encodeReplValue snapshot.state
    let mailbox ← encodeReplValues snapshot.mailboxCheckpoint
    return ["snapshot".toList, hexEncode (asBytes snapshot.actorId.value),
      hexEncode (asBytes snapshot.schema.id), displayU64 snapshot.schema.version,
      displayU64 snapshot.generation, displayU64 snapshot.lastEventSequence, state, mailbox,
      encodeU64Values snapshot.timerCheckpoint, encodeStrings snapshot.resourceHandles]
  | .event event => do
    let payload ← encodeReplValue event.payload
    return ["event".toList, hexEncode (asBytes event.actorId.value),
      hexEncode (asBytes event.schema.id), displayU64 event.schema.version,
      displayU64 event.sequence, payload]

variable {record : FileBackedRecord} {line : List Char}

theorem encodeRecord_ok_iff : encodeRecord record = .ok line ↔
      ∃ fields, recordFields record = .ok fields ∧ line = ['\t'].intercalate fields := by
  cases record with
  | snapshot snapshot =>
    simp only [encodeRecord, encodeSnapshotRecord, recordFields, except_bind_ok_iff]
    constructor
    · rintro ⟨state, stateText, mailbox, mailboxText, eq⟩
      cases eq
      exact ⟨_, ⟨state, stateText, mailbox, mailboxText, rfl⟩, rfl⟩
    · rintro ⟨_, ⟨state, stateText, mailbox, mailboxText, eq⟩, rfl⟩
      cases eq
      exact ⟨state, stateText, mailbox, mailboxText, rfl⟩
  | event event =>
    simp only [encodeRecord, encodeEventRecord, recordFields, except_bind_ok_iff]
    constructor
    · rintro ⟨payload, payloadText, eq⟩
      cases eq
      exact ⟨_, ⟨payload, payloadText, rfl⟩, rfl⟩
    · rintro ⟨_, ⟨payload, payloadText, eq⟩, rfl⟩
      cases eq
      exact ⟨payload, payloadText, rfl⟩

theorem recordFields_plain {fields : List (List Char)}
    (h : recordFields record = .ok fields) : ∀ field ∈ fields, ∀ c ∈ field, isListChar c := by
  have hex (text : String) : ∀ c ∈ hexEncode (asBytes text), isListChar c :=
    isListChar_of_field fun _ => isFieldChar_of_mem_hexEncode
  have number (n : UInt64) : ∀ c ∈ displayU64 n, isListChar c :=
    isListChar_of_field fun _ => isFieldChar_of_mem_displayU64
  cases record with
  | snapshot snapshot =>
    obtain ⟨state, stateText, rest⟩ := except_bind_ok_iff.mp h
    obtain ⟨mailbox, mailboxText, eq⟩ := except_bind_ok_iff.mp rest
    cases eq
    have timers : ∀ c ∈ encodeU64Values snapshot.timerCheckpoint, isListChar c := by
      apply isListChar_of_mem_intercalate
      intro text mem
      obtain ⟨value, -, rfl⟩ := mem_map.mp mem
      exact fun _ => isFieldChar_of_mem_displayU64
    have handles : ∀ c ∈ encodeStrings snapshot.resourceHandles, isListChar c := by
      apply isListChar_of_mem_intercalate
      intro text mem
      obtain ⟨value, -, rfl⟩ := mem_map.mp mem
      exact fun _ => isFieldChar_of_mem_hexEncode
    simp only [forall_mem_cons]
    exact ⟨all_eq_true.mp rfl, hex _, hex _, number _, number _, number _,
      isListChar_of_field fun _ => isFieldChar_of_mem_encodeReplValue stateText,
      isListChar_of_mem_encodeReplValues mailboxText, timers, handles, by simp⟩
  | event event =>
    obtain ⟨payload, payloadText, eq⟩ := except_bind_ok_iff.mp h
    cases eq
    simp only [forall_mem_cons]
    exact ⟨all_eq_true.mp rfl, hex _, hex _, number _, number _,
      isListChar_of_field fun _ => isFieldChar_of_mem_encodeReplValue payloadText, by simp⟩

theorem recordFields_ne_nil {fields : List (List Char)}
    (h : recordFields record = .ok fields) : fields ≠ [] := by
  rintro rfl
  cases record with
  | snapshot snapshot =>
    obtain ⟨state, stateText, rest⟩ := except_bind_ok_iff.mp h
    obtain ⟨mailbox, mailboxText, eq⟩ := except_bind_ok_iff.mp rest
    cases eq
  | event event =>
    obtain ⟨payload, payloadText, eq⟩ := except_bind_ok_iff.mp h
    cases eq

theorem VmPersistentActorId.new_value (actorId : VmPersistentActorId) :
    VmPersistentActorId.new actorId.value = .ok actorId :=
  dif_neg actorId.nonempty

theorem VmPersistentActorSchema.new_eq (schema : VmPersistentActorSchema) :
    VmPersistentActorSchema.new schema.id schema.version = .ok schema := by
  unfold VmPersistentActorSchema.new
  rw [dif_neg schema.named, dif_neg schema.versioned]

theorem VmPersistentActorSnapshot.new_eq (snapshot : VmPersistentActorSnapshot) :
    VmPersistentActorSnapshot.new snapshot.actorId snapshot.schema snapshot.generation
      snapshot.state snapshot.mailboxCheckpoint snapshot.timerCheckpoint snapshot.resourceHandles
      snapshot.lastEventSequence = .ok snapshot := by
  have named : ¬ ∃ handle ∈ snapshot.resourceHandles, handle = "" :=
    fun ⟨handle, mem, empty⟩ => snapshot.handled handle mem empty
  unfold VmPersistentActorSnapshot.new
  rw [dif_neg snapshot.generated, dif_neg named]

theorem VmPersistentActorEvent.new_eq (event : VmPersistentActorEvent) :
    VmPersistentActorEvent.new event.actorId event.schema event.sequence event.payload =
      .ok event :=
  dif_neg event.sequenced

theorem parseNumber_displayU64 (n : UInt64) (label : String) :
    parseNumber parseU64 (displayU64 n) label = .ok n := by
  rw [parseNumber, parseU64_displayU64]
  rfl

theorem parse_encodeRecord
    (h : encodeRecord record = .ok line) : parseFileBackedRecord line = .ok record := by
  obtain ⟨fields, written, rfl⟩ := encodeRecord_ok_iff.mp h
  have tabs : ∀ field ∈ fields, '\t' ∉ field := fun field mem tab =>
    absurd (recordFields_plain written field mem '\t' tab) (by decide)
  unfold parseFileBackedRecord
  rw [splitOn_intercalate_fields (recordFields_ne_nil written) tabs]
  cases record with
  | snapshot snapshot =>
    obtain ⟨state, stateText, rest⟩ := except_bind_ok_iff.mp written
    obtain ⟨mailbox, mailboxText, eq⟩ := except_bind_ok_iff.mp rest
    cases eq
    dsimp only
    rw [if_pos rfl]
    simp only [parseSnapshotFields, hexDecodeString_hexEncode, parseNumber_displayU64,
      parseReplValue_encodeReplValue stateText, parseReplValues_encodeReplValues mailboxText,
      parseU64Values_encodeU64Values, parseStrings_encodeStrings snapshot.handled,
      VmPersistentActorId.new_value, VmPersistentActorSchema.new_eq,
      VmPersistentActorSnapshot.new_eq, bind, Except.bind, pure, Except.pure]
  | event event =>
    obtain ⟨payload, payloadText, eq⟩ := except_bind_ok_iff.mp written
    cases eq
    dsimp only
    rw [if_pos rfl]
    simp only [parseEventFields, hexDecodeString_hexEncode, parseNumber_displayU64,
      parseReplValue_encodeReplValue payloadText, VmPersistentActorId.new_value,
      VmPersistentActorSchema.new_eq, VmPersistentActorEvent.new_eq, bind, Except.bind, pure,
      Except.pure]

/-- A line of the log is no blank line and has no line break in it. -/
theorem encodeRecord_plain (h : encodeRecord record = .ok line) :
    ('\n' ∉ line ∧ '\r' ∉ line) ∧ line.all isWhitespace = false := by
  obtain ⟨fields, written, rfl⟩ := encodeRecord_ok_iff.mp h
  have plain := recordFields_plain written
  refine ⟨⟨notMem_intercalate (by decide) fun field mem bad => ?_,
    notMem_intercalate (by decide) fun field mem bad => ?_⟩, ?_⟩
  · exact absurd (plain field mem '\n' bad) (by decide)
  · exact absurd (plain field mem '\r' bad) (by decide)
  · cases record with
    | snapshot snapshot =>
      obtain ⟨state, stateText, rest⟩ := except_bind_ok_iff.mp written
      obtain ⟨mailbox, mailboxText, eq⟩ := except_bind_ok_iff.mp rest
      cases eq
      rfl
    | event event =>
      obtain ⟨payload, payloadText, eq⟩ := except_bind_ok_iff.mp written
      cases eq
      rfl

/-! ## What can be read can be written -/

/-- The record has a line. -/
def Encodable (record : FileBackedRecord) : Prop := ∃ line, encodeRecord record = .ok line

theorem encodeReplValue_of_parse
    (h : parseReplValue text = .ok value) : ∃ text', encodeReplValue value = .ok text' := by
  unfold parseReplValue at h
  split at h
  next => cases h; exact ⟨_, rfl⟩
  next =>
    obtain ⟨value, -, eq⟩ := except_map_ok_iff.mp h
    cases eq
    exact ⟨_, rfl⟩
  next =>
    obtain ⟨value, -, eq⟩ := except_map_ok_iff.mp h
    cases eq
    exact ⟨_, rfl⟩
  next =>
    obtain ⟨value, -, eq⟩ := except_map_ok_iff.mp h
    cases eq
    exact ⟨_, rfl⟩
  next =>
    obtain ⟨value, -, eq⟩ := except_map_ok_iff.mp h
    cases eq
    exact ⟨_, rfl⟩
  next =>
    split at h
    · cases h; exact ⟨_, rfl⟩
    split at h
    next => cases h; exact ⟨_, rfl⟩
    next => cases h
  next => cases h

theorem encodeReplValues_of_parse
    (h : parseReplValues text = .ok values) : ∃ text', encodeReplValues values = .ok text' := by
  have each : ∀ value ∈ values, ∃ text', encodeReplValue value = .ok text' := by
    unfold parseReplValues parseList at h
    split at h
    next =>
      cases h
      simp
    next =>
      intro value mem
      obtain ⟨text', -, parsed⟩ := Forall₂.exists_of_mem_right (mapM_ok_iff.mp h) mem
      exact encodeReplValue_of_parse parsed
  obtain ⟨texts, written⟩ := exists_mapM_ok each
  exact ⟨_, by rw [encodeReplValues, written]; rfl⟩

theorem encodable_snapshot {actor schemaId schemaVersion generation lastEventSequence state mailbox
    timers resources : List Char}
    (h : parseSnapshotFields actor schemaId schemaVersion generation lastEventSequence state mailbox
      timers resources = .ok record) : Encodable record := by
  simp only [parseSnapshotFields, except_bind_ok_iff] at h
  obtain ⟨_, -, _, -, _, -, _, -, _, -, _, -, value, stateText, values, mailboxText, _, -, _, -, _,
    -, snapshot, built, eq⟩ := h
  cases eq
  unfold VmPersistentActorSnapshot.new at built
  split at built
  · cases built
  split at built
  · cases built
  cases built
  obtain ⟨text, written⟩ := encodeReplValue_of_parse stateText
  obtain ⟨texts, writtenAll⟩ := encodeReplValues_of_parse mailboxText
  exact ⟨_, except_bind_ok_iff.mpr
    ⟨text, written, except_bind_ok_iff.mpr ⟨texts, writtenAll, rfl⟩⟩⟩

theorem encodable_event {actor schemaId schemaVersion sequence payload : List Char}
    (h : parseEventFields actor schemaId schemaVersion sequence payload = .ok record) :
    Encodable record := by
  simp only [parseEventFields, except_bind_ok_iff] at h
  obtain ⟨_, -, _, -, _, -, _, -, _, -, _, -, value, payloadText, event, built, eq⟩ := h
  cases eq
  unfold VmPersistentActorEvent.new at built
  split at built
  · cases built
  cases built
  obtain ⟨text, written⟩ := encodeReplValue_of_parse payloadText
  exact ⟨_, except_bind_ok_iff.mpr ⟨text, written, rfl⟩⟩

theorem encodable_of_parse (h : parseFileBackedRecord line = .ok record) : Encodable record := by
  unfold parseFileBackedRecord at h
  split at h
  next =>
    split at h
    next => exact encodable_snapshot h
    next => cases h
  next =>
    split at h
    next => exact encodable_event h
    next => cases h
  next => cases h

end Terlan.PersistentActorStore
