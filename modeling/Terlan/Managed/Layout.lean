/-
  Binary layouts: the expression that puts the encodings of its fields together, and the
  pattern that takes them apart.

  * `binary_layouts_invert`: what is built from values in range matches the layout and gives
    the values back; a match of a layout without text fields, taken apart and built again,
    gives the same bits.
-/
import Terlan.Managed.Scalars

namespace Terlan.Managed

open Terlan.Lib BitString List
open BitString (encodeBitstringOperation executeBitstringOperation integerBits utf16Bytes
  utf32Bytes BitsAt)
open BinaryPattern (validateFields fieldsAllowed fieldAllowed matchedRangesFrom
  encodeBinaryPatternMatchesOperation encodeBinaryPatternExtractOperation
  executeBinaryPatternOperation)

namespace BinaryLayout

/-! ## Putting a binary together -/

/-- One operation of generated code. -/
def intrinsic (operation : ManagedBitStringOperation) (words : List Word) : HeapM Word :=
  executeBitstringOperation (encodeBitstringOperation operation) words

/-- The encoding of one field. -/
def segment (endian : Endian) (field : ManagedBinaryPatternField) (word : Word) : HeapM Word :=
  match field, endian with
  | .uInt width, .big => intrinsic .fromUintBe [word, width.toBitVec]
  | .uInt width, .little => intrinsic .fromUintLe [word, width.toBitVec]
  | .int width, .big => intrinsic .fromIntBe [word, width.toBitVec]
  | .int width, .little => intrinsic .fromIntLe [word, width.toBitVec]
  | .bytes width, _ => intrinsic .fromExactBytes [word, width.toBitVec]
  | .bits width, _ => intrinsic .requireExactBits [word, width.toBitVec]
  | .utf8, _ => intrinsic .utf8Scalar [word]
  | .utf16, .big => intrinsic .utf16BeScalar [word]
  | .utf16, .little => intrinsic .utf16LeScalar [word]
  | .utf32, .big => intrinsic .utf32BeScalar [word]
  | .utf32, .little => intrinsic .utf32LeScalar [word]
  | .rest, _ => intrinsic .fromAllBytes [word]

/-- The segments from the left, each joined to what is there. -/
def appendSegments (endian : Endian) (binary : Word) :
    List (ManagedBinaryPatternField × Word) → HeapM Word
  | [] => pure binary
  | (field, word) :: fields => do
    let next ← segment endian field word
    let joined ← intrinsic .concat [binary, next]
    appendSegments endian joined fields

/-- A layout without fields has no expression. -/
def construct (endian : Endian) :
    List (ManagedBinaryPatternField × Word) → HeapM (Option Word)
  | [] => pure none
  | (field, word) :: fields => do
    let first ← segment endian field word
    some <$> appendSegments endian first fields

/-! ## Values and their encodings -/

inductive FieldValue where
  | number (value : Word)
  | bytes (value : List UInt8)
  | bits (value : List Bool)

/-- The word carries the value of a field. -/
def Denotes (heap : ActorHeap) (field : ManagedBinaryPatternField) (word : Word) :
    FieldValue → Prop
  | .number value => BinaryPattern.fieldIsReference field = false ∧ word = value
  | .bytes bytes => HasBytes heap word bytes
  | .bits bits => HasBits heap word bits

def InRange : ManagedBinaryPatternField → FieldValue → Prop
  | .uInt width, .number value => 0 ≤ value.toInt ∧ value.toInt < 2 ^ width.toNat
  | .int width, .number value =>
    -2 ^ (width.toNat - 1) ≤ value.toInt ∧ value.toInt < 2 ^ (width.toNat - 1)
  | .bytes width, .bytes bytes => bytes.length = width.toNat
  | .bits width, .bits bits => bits.length = width.toNat
  | .utf8, .number value | .utf16, .number value | .utf32, .number value =>
    ∃ scalar : Char, value.toInt = scalar.toNat
  | .rest, .bytes _ => True
  | _, _ => False

/-- The bits that a value in range is encoded in. -/
def encodedBits (endian : Endian) : ManagedBinaryPatternField → FieldValue → List Bool
  | .uInt width, .number value | .int width, .number value =>
    integerBits endian width.toNat value
  | .utf8, .number value => bitsOf (String.utf8EncodeChar (Char.ofNat value.toNat))
  | .utf16, .number value => bitsOf (utf16Bytes endian (Char.ofNat value.toNat))
  | .utf32, .number value => bitsOf (utf32Bytes endian (Char.ofNat value.toNat))
  | _, .bytes bytes => bitsOf bytes
  | _, .bits bits => bits
  | _, _ => []

variable {heap : ActorHeap} {endian : Endian}

variable {word : Word}

theorem Denotes.extend {heap' : ActorHeap} (extended : Extends heap heap')
    {field : ManagedBinaryPatternField} {value : FieldValue}
    (denotes : Denotes heap field word value) : Denotes heap' field word value := by
  cases value with
  | number value => exact denotes
  | bytes bytes => exact HasBytes.extend extended denotes
  | bits bits => exact HasBits.extend extended denotes

/-! ## One segment -/

theorem call_intrinsic (operation : ManagedBitStringOperation) (words : List Word) :
    (intrinsic operation words).call heap = (execute operation words).call heap := by
  unfold intrinsic executeBitstringOperation
  rw [call_check_bind, decode_encode]

theorem yields_intrinsic {operation : ManagedBitStringOperation} {words : List Word}
    {Q : ActorHeap → Word → Prop} (run : Yields (execute operation words) heap Q) :
    Yields (intrinsic operation words) heap Q := by
  unfold Yields at run ⊢
  rw [call_intrinsic]
  exact run

/-- A scalar value as a word. -/
theorem word_of_scalar {value : Word} {scalar : Char} (same : value.toInt = scalar.toNat) :
    value = BitVec.ofNat 64 scalar.toNat := by
  have range := scalar_range scalar
  apply BitVec.eq_of_toNat_eq
  rw [BitVec.toNat_ofNat, Nat.mod_eq_of_lt (by omega)]
  rw [BitVec.toInt_eq_toNat_cond] at same
  have bound := value.isLt
  split at same <;> omega

theorem toNat_of_scalar {value : Word} {scalar : Char} (same : value.toInt = scalar.toNat) :
    value.toNat = scalar.toNat := by
  have range := scalar_range scalar
  rw [word_of_scalar same, BitVec.toNat_ofNat, Nat.mod_eq_of_lt (by omega)]

theorem char_of_scalar {value : Word} {scalar : Char} (same : value.toInt = scalar.toNat) :
    Char.ofNat value.toNat = scalar := by
  rw [toNat_of_scalar same, Char.ofNat_toNat]

theorem yields_encodeScalar {bytes : Char → List UInt8} {value : Word} {scalar : Char}
    (same : value.toInt = scalar.toNat) (short : (bytes scalar).length ≤ 4) :
    Yields (encodeScalar bytes [value]) heap fun heap' made =>
      HasBits heap' made (bitsOf (bytes (Char.ofNat value.toNat))) := by
  have range := scalar_range scalar
  have read : scalarChar value = .ok scalar := by
    unfold scalarChar
    rw [if_neg (by omega), toNat_of_scalar same, charFromU32_toNat]
  unfold encodeScalar
  rw [char_of_scalar same]
  exact yields_check_bind read (yields_allocatePacked_bytes (by omega))

theorem length_utf8EncodeChar_le (scalar : Char) : (String.utf8EncodeChar scalar).length ≤ 4 := by
  obtain ⟨first, bytes, encoded, _, widths⟩ := utf8EncodeChar_first scalar
  rw [encoded, length_cons]
  omega

theorem length_utf16Bytes_le (endian : Endian) (scalar : Char) :
    (utf16Bytes endian scalar).length ≤ 4 := by
  unfold utf16Bytes
  rcases encodeUtf16Units_cases scalar with ⟨units, _⟩ | ⟨high, low, units, _⟩
  · rw [units]
    simp
  · rw [units]
    simp

theorem length_utf32Bytes (endian : Endian) (scalar : Char) :
    (utf32Bytes endian scalar).length = 4 :=
  length_unitBytes endian 4 scalar.toNat

variable {width : UInt64}

theorem nonnegativeUsize_of_small (small : width.toNat < 2 ^ 63) :
    nonnegativeUsize width.toBitVec = .ok width.toNat := by
  have value : width.toBitVec.toInt = width.toNat := by
    rw [BitVec.toInt_eq_toNat_of_lt]
    · rfl
    · show 2 * width.toNat < 2 ^ 64
      omega
  unfold nonnegativeUsize
  rw [if_neg (by omega)]
  rfl

theorem yields_fromWholeBytes {bytes : List UInt8} (has : HasBytes heap word bytes)
    {expected : Option Nat} (exact : ∀ n, expected = some n → n = bytes.length) :
    Yields (fromWholeBytes word expected) heap fun heap' made =>
      HasBits heap' made (bitsOf bytes) := by
  have small := has.small
  have length : (bitsOf bytes).length = bytes.length * 8 := by
    rw [length_bitsOf, Nat.mul_comm]
  unfold fromWholeBytes
  refine yields_get_bind (yields_check_bind has ?_)
  have wanted : ¬ expected.any (· ≠ bytes.length) = true := by
    cases expected with
    | none => simp
    | some n => simp [exact n rfl]
  rw [if_neg wanted]
  have fits : bytes.length * 8 < usizeLimit := by
    unfold usizeLimit
    omega
  rw [usizeMul, if_pos fits]
  refine (yields_allocateBinary has (by omega)).mono fun heap' made _ found => ?_
  rw [drop_zero, ← length, take_length] at found
  exact found

theorem integerFits_of_unsigned {width : Nat} {value : Word}
    (range : 0 ≤ value.toInt ∧ value.toInt < 2 ^ width) : integerFits false width value = true := by
  obtain ⟨low, high⟩ := range
  have same : value.toInt = value.toNat := by
    rw [BitVec.toInt_eq_toNat_cond] at low ⊢
    have bound := value.isLt
    split at low <;> split <;> omega
  refine decide_eq_true ⟨low, ?_⟩
  rw [same] at high
  exact_mod_cast high

theorem integerFits_of_signed {width : Nat} {value : Word}
    (range : -2 ^ (width - 1) ≤ value.toInt ∧ value.toInt < 2 ^ (width - 1)) :
    integerFits true width value = true := decide_eq_true range

theorem width_range {last : Bool}
    (allowed : fieldAllowed (.uInt width) last = true) : 1 ≤ width.toNat ∧ width.toNat ≤ 63 := by
  obtain ⟨low, high⟩ := of_decide_eq_true allowed
  exact ⟨UInt64.le_iff_toNat_le.mp low, UInt64.le_iff_toNat_le.mp high⟩

theorem word_of_width (width : UInt64) : width.toBitVec = BitVec.ofNat 64 width.toNat := by
  apply BitVec.eq_of_toNat_eq
  rw [BitVec.toNat_ofNat, Nat.mod_eq_of_lt width.toNat_lt]
  rfl

theorem yields_exactBytes {bytes : List UInt8}
    (has : HasBytes heap word bytes) (range : bytes.length = width.toNat) :
    Yields (fromExactBytes [word, width.toBitVec]) heap fun heap' made =>
      HasBits heap' made (bitsOf bytes) := by
  have small := has.small
  unfold fromExactBytes
  refine yields_check_bind (referenceWord_of_bytes has) ?_
  refine yields_check_bind (nonnegativeUsize_of_small (by omega)) ?_
  exact yields_fromWholeBytes has fun n same => by cases same; exact range.symm

theorem yields_exactBits {bits : List Bool}
    (has : HasBits heap word bits) (range : bits.length = width.toNat) :
    Yields (requireExactBits [word, width.toBitVec]) heap fun heap' made =>
      HasBits heap' made bits := by
  have small := has.small
  obtain ⟨view, read, rfl⟩ := has
  rw [ManagedBinaryView.length_bits] at range small
  unfold requireExactBits
  refine yields_get_bind (yields_check_bind (referenceWord_of_view read) ?_)
  refine yields_check_bind read ?_
  refine yields_check_bind (nonnegativeUsize_of_small (by omega)) ?_
  rw [if_neg (not_not_intro range)]
  exact yields_pure ⟨view, read, rfl⟩

/-- A value in range is encoded, or there is no room for its encoding. -/
theorem yields_segment {field : ManagedBinaryPatternField} {value : FieldValue}
    {last : Bool} (allowed : fieldAllowed field last = true)
    (denotes : Denotes heap field word value) (range : InRange field value) :
    Yields (segment endian field word) heap fun heap' made =>
      HasBits heap' made (encodedBits endian field value) := by
  cases field with
  | uInt width =>
    cases value with
    | number value =>
      obtain ⟨_, rfl⟩ := denotes
      have made := fun endian => @yields_encodeInteger heap endian width.toNat false
        word width.toBitVec (width_range allowed) (word_of_width width)
        (integerFits_of_unsigned range)
      cases endian with
      | big => exact yields_intrinsic (made .big)
      | little => exact yields_intrinsic (made .little)
    | bytes | bits => cases range
  | int width =>
    cases value with
    | number value =>
      obtain ⟨_, rfl⟩ := denotes
      have made := fun endian => @yields_encodeInteger heap endian width.toNat true
        word width.toBitVec (@width_range width last allowed) (word_of_width width)
        (integerFits_of_signed range)
      cases endian with
      | big => exact yields_intrinsic (made .big)
      | little => exact yields_intrinsic (made .little)
    | bytes | bits => cases range
  | bytes width =>
    cases value with
    | bytes bytes => exact yields_intrinsic (yields_exactBytes denotes range)
    | number | bits => cases range
  | bits width =>
    cases value with
    | bits bits => exact yields_intrinsic (yields_exactBits denotes range)
    | number | bytes => cases range
  | utf8 =>
    cases value with
    | number value =>
      obtain ⟨_, rfl⟩ := denotes
      obtain ⟨scalar, same⟩ := range
      exact yields_intrinsic (yields_encodeScalar same (length_utf8EncodeChar_le scalar))
    | bytes | bits => cases range
  | utf16 =>
    cases value with
    | number value =>
      obtain ⟨_, rfl⟩ := denotes
      obtain ⟨scalar, same⟩ := range
      have made := fun endian => @yields_encodeScalar heap (utf16Bytes endian) word scalar same
        (length_utf16Bytes_le endian scalar)
      cases endian with
      | big => exact yields_intrinsic (made .big)
      | little => exact yields_intrinsic (made .little)
    | bytes | bits => cases range
  | utf32 =>
    cases value with
    | number value =>
      obtain ⟨_, rfl⟩ := denotes
      obtain ⟨scalar, same⟩ := range
      have made := fun endian => @yields_encodeScalar heap (utf32Bytes endian) word scalar same
        (length_utf32Bytes endian scalar).le
      cases endian with
      | big => exact yields_intrinsic (made .big)
      | little => exact yields_intrinsic (made .little)
    | bytes | bits => cases range
  | rest =>
    cases value with
    | bytes bytes =>
      refine yields_intrinsic ?_
      exact yields_check_bind (referenceWord_of_bytes denotes)
        (yields_fromWholeBytes denotes fun n same => by cases same)
    | number | bits => cases range

/-! ## The whole binary -/

/-- A field with its word and its value. -/
def Carries (heap : ActorHeap) (bound : ManagedBinaryPatternField × Word) (value : FieldValue) :
    Prop :=
  Denotes heap bound.1 bound.2 value ∧ InRange bound.1 value

def layout (bound : List (ManagedBinaryPatternField × Word)) : List ManagedBinaryPatternField :=
  bound.map (·.1)

/-- The encodings of the values, one after the other. -/
def layoutBits (endian : Endian) :
    List ManagedBinaryPatternField → List FieldValue → List Bool
  | field :: fields, value :: values =>
    encodedBits endian field value ++ layoutBits endian fields values
  | _, _ => []

/-- What was built; no binary stands for no bits. -/
def Built (heap : ActorHeap) (built : Option Word) (bits : List Bool) : Prop :=
  match built with
  | none => bits = []
  | some binary => HasBits heap binary bits

variable {bound : List (ManagedBinaryPatternField × Word)} {values : List FieldValue}

theorem Forall₂.extend {heap' : ActorHeap} (extended : Extends heap heap')
    (carries : List.Forall₂ (Carries heap) bound values) :
    List.Forall₂ (Carries heap') bound values :=
  carries.imp fun _ _ h => ⟨h.1.extend extended, h.2⟩

theorem yields_appendSegments {binary : Word} {bits : List Bool}
    (allowed : fieldsAllowed (layout bound) = true)
    (carries : List.Forall₂ (Carries heap) bound values) (has : HasBits heap binary bits) :
    Yields (appendSegments endian binary bound) heap fun heap' made =>
      HasBits heap' made (bits ++ layoutBits endian (layout bound) values) := by
  induction bound generalizing heap values binary bits with
  | nil =>
    cases carries
    refine yields_pure ?_
    show HasBits heap binary (bits ++ [])
    rw [append_nil]
    exact has
  | cons field bound ih =>
    cases carries with
    | cons carry carries =>
      obtain ⟨first, others⟩ := Bool.and_eq_true_iff.mp allowed
      refine (yields_segment first carry.1 carry.2).bind fun heap₁ next kept made => ?_
      refine Yields.bind (yields_intrinsic
        (yields_concatenate (has.extend kept) made)) fun heap₂ joined kept' made' => ?_
      have all := ih others (Forall₂.extend (kept.trans kept') carries) made'
      rw [append_assoc] at all
      exact all

theorem yields_construct (allowed : fieldsAllowed (layout bound) = true)
    (carries : List.Forall₂ (Carries heap) bound values) :
    Yields (construct endian bound) heap fun heap' built =>
      Built heap' built (layoutBits endian (layout bound) values) := by
  cases carries with
  | nil => exact yields_pure rfl
  | cons carry carries =>
    obtain ⟨first, others⟩ := Bool.and_eq_true_iff.mp allowed
    refine (yields_segment first carry.1 carry.2).bind fun heap₁ binary kept made => ?_
    exact Yields.map (yields_appendSegments others (Forall₂.extend kept carries) made)

/-! ## Reading one field -/

section Reading

variable {view : ManagedBinaryView} {offset : Nat}

/-- What `extract` returns for a value. -/
def FieldValue.extracted : FieldValue → BinaryPattern.Extracted
  | .number word => .scalar word
  | .bytes packed => .bytes packed
  | .bits sequence => .binary (packBits sequence) sequence.length

/-- The encoding of a value is recognised and read back. -/
structure ReadsBack (view : ManagedBinaryView) (endian : Endian) (offset : Nat)
    (field : ManagedBinaryPatternField) (value : FieldValue) : Prop where
  width : BinaryPattern.fieldWidth view offset endian field =
    some (encodedBits endian field value).length
  decodes : BinaryPattern.isUtf field = true → (BinaryPattern.decodeUtf view offset
    (encodedBits endian field value).length endian field).isSome
  extracts : BinaryPattern.extract view endian field offset
    (encodedBits endian field value).length = .ok value.extracted

variable {bytes : List UInt8}

theorem copyBits_bytes (found : BitsAt view offset (bitsOf bytes)) :
    BinaryPattern.copyBits view offset (bitsOf bytes).length = .ok bytes := by
  rw [found.copyBits, packBits_bitsOf]

theorem readsBack_integer {width : UInt64} {signed : Bool} {value : Word}
    {field : ManagedBinaryPatternField} (last : Bool)
    (same : field = if signed then .int width else .uInt width)
    (allowed : fieldAllowed (.uInt width) last = true)
    (fits : integerFits signed width.toNat value = true)
    (found : BitsAt view offset (integerBits endian width.toNat value)) :
    ReadsBack view endian offset field (.number value) := by
  have range := width_range allowed
  have read := found.decodeInteger range fits
  have length := length_integerBits endian width.toNat value
  cases signed with
  | false =>
    subst same
    refine ⟨congrArg some length.symm, fun utf => (by cases utf), ?_⟩
    show BinaryPattern.extract view endian (.uInt width) offset
      (integerBits endian width.toNat value).length = _
    rw [length]
    unfold BinaryPattern.extract
    dsimp only
    rw [read]
    rfl
  | true =>
    subst same
    refine ⟨congrArg some length.symm, fun utf => (by cases utf), ?_⟩
    show BinaryPattern.extract view endian (.int width) offset
      (integerBits endian width.toNat value).length = _
    rw [length]
    unfold BinaryPattern.extract
    dsimp only
    rw [read]
    rfl

/-- The three formats of a scalar value. -/
theorem readsBack_utf {field : ManagedBinaryPatternField} {value : Word}
    {scalar : Char} (utf : BinaryPattern.isUtf field = true) (same : value.toInt = scalar.toNat)
    (encoded : encodedBits endian field (.number value) = bitsOf bytes)
    (found : BitsAt view offset (bitsOf bytes))
    (width : BinaryPattern.fieldWidth view offset endian field = some (bitsOf bytes).length)
    (single : BinaryPattern.utfSingle endian field bytes = some scalar) :
    ReadsBack view endian offset field (.number value) := by
  have decoded : BinaryPattern.decodeUtf view offset (bitsOf bytes).length endian field =
      some value := by
    unfold BinaryPattern.decodeUtf
    rw [copyBits_bytes found, word_of_scalar same]
    simp only [Except.toOption, bind, Option.bind, single]
    rfl
  refine ⟨by rw [encoded, width], fun _ => by rw [encoded, decoded]; rfl, ?_⟩
  rw [encoded]
  cases field with
  | utf8 | utf16 | utf32 =>
    unfold BinaryPattern.extract
    dsimp only
    rw [decoded]
    rfl
  | _ => cases utf

theorem readsBack_bytes {field : ManagedBinaryPatternField}
    (plain : field = .rest ∨ ∃ width, field = .bytes width)
    (found : BitsAt view offset (bitsOf bytes))
    (width : BinaryPattern.fieldWidth view offset endian field = some (bitsOf bytes).length) :
    ReadsBack view endian offset field (.bytes bytes) := by
  have copied := copyBits_bytes found
  rcases plain with rfl | ⟨w, rfl⟩
  · refine ⟨width, fun utf => (by cases utf), ?_⟩
    unfold BinaryPattern.extract
    dsimp only
    show (BinaryPattern.copyBits view offset (bitsOf bytes).length >>= _) = _
    rw [copied]
    rfl
  · refine ⟨width, fun utf => (by cases utf), ?_⟩
    unfold BinaryPattern.extract
    dsimp only
    show (BinaryPattern.copyBits view offset (bitsOf bytes).length >>= _) = _
    rw [copied]
    rfl

theorem readsBack {field : ManagedBinaryPatternField} {value : FieldValue} {rest : List Bool}
    {last : Bool} (allowed : fieldAllowed field last = true) (ends : last = true → rest = [])
    (range : InRange field value) (le : offset ≤ view.bitLength)
    (found : view.bits.drop offset = encodedBits endian field value ++ rest) :
    ReadsBack view endian offset field value := by
  have here := bitsAt_of_drop found le
  cases field with
  | uInt width =>
    cases value with
    | number value =>
      exact @readsBack_integer _ view offset width false value _ last rfl allowed
        (integerFits_of_unsigned range) here
    | bytes | bits => cases range
  | int width =>
    cases value with
    | number value =>
      exact @readsBack_integer _ view offset width true value _ last rfl allowed
        (integerFits_of_signed range) here
    | bytes | bits => cases range
  | bytes width =>
    cases value with
    | bytes bytes =>
      refine readsBack_bytes (.inr ⟨width, rfl⟩) here ?_
      have inside := here.inside
      obtain ⟨small, within⟩ := ActorHeap.validateBitRange_ok_iff.mp view.checked
      have length : (encodedBits endian (.bytes width) (.bytes bytes)).length =
          8 * bytes.length := length_bitsOf bytes
      have range : bytes.length = width.toNat := range
      show usizeMul width.toNat 8 = some (bitsOf bytes).length
      rw [length_bitsOf, ← range, usizeMul, if_pos (by omega), Nat.mul_comm]
    | number | bits => cases range
  | bits width =>
    cases value with
    | bits bits =>
      have range : bits.length = width.toNat := range
      refine ⟨congrArg some range.symm, fun utf => (by cases utf), ?_⟩
      unfold BinaryPattern.extract
      dsimp only
      show (BinaryPattern.copyBits view offset bits.length >>= _) = _
      rw [show BinaryPattern.copyBits view offset bits.length = .ok (packBits bits) from
        BitsAt.copyBits here]
      rfl
    | number | bytes => cases range
  | utf8 =>
    cases value with
    | number value =>
      obtain ⟨scalar, same⟩ := range
      have encoded : encodedBits endian .utf8 (.number value) =
          bitsOf (String.utf8EncodeChar scalar) := by
        rw [encodedBits, char_of_scalar same]
      rw [encoded] at here
      exact readsBack_utf rfl same encoded here (utf8Width_encoded scalar here)
        (utf8Single_encode scalar)
    | bytes | bits => cases range
  | utf16 =>
    cases value with
    | number value =>
      obtain ⟨scalar, same⟩ := range
      have encoded : encodedBits endian .utf16 (.number value) =
          bitsOf (utf16Bytes endian scalar) := by
        rw [encodedBits, char_of_scalar same]
      rw [encoded] at here
      exact readsBack_utf rfl same encoded here (utf16Width_encoded scalar here)
        (utf16Single_encode endian scalar)
    | bytes | bits => cases range
  | utf32 =>
    cases value with
    | number value =>
      obtain ⟨scalar, same⟩ := range
      have encoded : encodedBits endian .utf32 (.number value) =
          bitsOf (utf32Bytes endian scalar) := by
        rw [encodedBits, char_of_scalar same]
      rw [encoded] at here
      refine readsBack_utf rfl same encoded here ?_ (utf32Single_encode endian scalar)
      rw [length_bitsOf, length_utf32Bytes]
      rfl
    | bytes | bits => cases range
  | rest =>
    cases value with
    | bytes bytes =>
      refine readsBack_bytes (.inl rfl) here ?_
      have length := congrArg List.length found
      rw [ends allowed, append_nil, length_drop,
        ManagedBinaryView.length_bits] at length
      have bits : (encodedBits endian .rest (.bytes bytes)).length = 8 * bytes.length :=
        length_bitsOf bytes
      show (if offset ≤ view.bitLength then
        if (view.bitLength - offset) % 8 = 0 then some (view.bitLength - offset) else none
        else none) = some (bitsOf bytes).length
      rw [if_pos le, if_pos (by omega), length_bitsOf]
      congr 1
      omega
    | number | bits => cases range

/-! ## The whole layout -/

theorem matchedRangesFrom_layoutBits {fields : List ManagedBinaryPatternField}
    {values : List FieldValue} (allowed : fieldsAllowed fields = true)
    (range : List.Forall₂ InRange fields values) (le : offset ≤ view.bitLength)
    (found : view.bits.drop offset = layoutBits endian fields values) :
    ∃ ranges, matchedRangesFrom view endian offset fields = some ranges ∧
      ∀ (selected : Nat) (field : ManagedBinaryPatternField) (value : FieldValue),
        fields[selected]? = some field → values[selected]? = some value →
        ∃ start width, ranges[selected]? = some (start, width) ∧
          BinaryPattern.extract view endian field start width = .ok value.extracted ∧
          start + (encodedBits endian field value).length ≤ view.bitLength := by
  induction range generalizing offset with
  | nil =>
    have length := congrArg List.length found
    rw [length_drop, ManagedBinaryView.length_bits] at length
    have finished : offset = view.bitLength := by
      change view.bitLength - offset = 0 at length
      omega
    refine ⟨[], ?_, fun selected field value listed => by cases listed⟩
    unfold matchedRangesFrom
    rw [if_pos finished]
  | @cons field value fields values here range ih =>
    obtain ⟨first, others⟩ := Bool.and_eq_true_iff.mp allowed
    have ends : fields.isEmpty = true → layoutBits endian fields values = [] := by
      intro none
      obtain rfl := List.isEmpty_iff.mp none
      cases range
      rfl
    have back := readsBack first ends here le found
    have placed := bitsAt_of_drop found le
    have after : view.bits.drop (offset + (encodedBits endian field value).length) =
        layoutBits endian fields values := by
      rw [← drop_drop, found]
      exact drop_left
    obtain ⟨ranges, matched, reads⟩ := ih others placed.inside after
    obtain ⟨small, within⟩ := ActorHeap.validateBitRange_ok_iff.mp view.checked
    have inside := placed.inside
    refine ⟨(offset, (encodedBits endian field value).length) :: ranges, ?_, ?_⟩
    · have sum : usizeAdd offset (encodedBits endian field value).length =
          some (offset + (encodedBits endian field value).length) := if_pos (by omega)
      have decodes : ¬ (BinaryPattern.isUtf field = true ∧ (BinaryPattern.decodeUtf view offset
          (encodedBits endian field value).length endian field).isNone) := by
        rintro ⟨utf, none⟩
        have some := back.decodes utf
        rw [← Option.not_isNone, none] at some
        cases some
      unfold matchedRangesFrom
      simp only [back.width, sum, bind, Option.bind]
      rw [if_neg (Nat.not_lt.mpr inside), if_neg decodes, matched]
      rfl
    · intro selected other carried listed listed'
      cases selected with
      | zero =>
        cases listed
        cases listed'
        exact ⟨offset, _, rfl, back.extracts, inside⟩
      | succ selected => exact reads selected other carried listed listed'

theorem range_of_unsigned {width : Nat} {value : Word}
    (fits : integerFits false width value = true) : 0 ≤ value.toInt ∧ value.toInt < 2 ^ width := by
  obtain ⟨low, high⟩ := of_decide_eq_true fits
  refine ⟨low, ?_⟩
  have same : value.toInt = value.toNat := by
    rw [BitVec.toInt_eq_toNat_cond] at low ⊢
    have bound := value.isLt
    split at low <;> split <;> omega
  rw [same]
  exact_mod_cast high

theorem range_of_signed {width : Nat} {value : Word} (fits : integerFits true width value = true) :
    -2 ^ (width - 1) ≤ value.toInt ∧ value.toInt < 2 ^ (width - 1) := of_decide_eq_true fits

/-- Bits of a width are the encoding of the number that is read from them. -/
theorem exists_number (signed : Bool) {width : Nat} (range : 1 ≤ width ∧ width ≤ 63)
    (inside : offset + width ≤ view.bitLength) : ∃ value, integerFits signed width value = true ∧
      integerBits endian width value = (view.bits.drop offset).take width := by
  obtain ⟨raw, _, low⟩ := readInteger_eq endian inside (by omega)
  refine ⟨signExtended signed width raw,
    integerFits_signExtended signed range fun k above => ?_, ?_⟩
  · rw [low k, decide_eq_false (Nat.not_lt.mpr above), Bool.false_and]
  · have length : ((view.bits.drop offset).take width).length = width := by
      simp
      omega
    refine ext_getElem (by rw [length_integerBits, length]) fun j here here' => ?_
    rw [length_integerBits] at here
    have place := @bitPlace_lt endian width j here
    have outside : ¬ (width ≤ bitPlace endian width j ∧
        bitPlace endian width j < 64) := by omega
    rw [← getD_eq_getElem _ false, ← getD_eq_getElem _ false,
      getD_integerBits here, getLsbD_signExtended, decide_eq_false outside,
      Bool.and_false, Bool.or_false, low, decide_eq_true place, Bool.true_and,
      bitPlace_bitPlace here]
    simp [getD_eq_getElem?_getD, here]

theorem exists_bytes {count : Nat} (inside : offset + 8 * count ≤ view.bitLength) :
    ∃ bytes : List UInt8, bytes.length = count ∧
      bitsOf bytes = (view.bits.drop offset).take (8 * count) := by
  have length : ((view.bits.drop offset).take (8 * count)).length = 8 * count := by
    simp
    omega
  refine ⟨packBits ((view.bits.drop offset).take (8 * count)), ?_, ?_⟩
  · rw [length_packBits, length]
    omega
  · exact bitsOf_packBits (by rw [length]; exact Nat.dvd_mul_right 8 count)

/-- What a field without text covers is the encoding of a value in range. -/
theorem exists_value {field : ManagedBinaryPatternField} {width : Nat} {last : Bool}
    (allowed : fieldAllowed field last = true) (plain : BinaryPattern.isUtf field = false)
    (covers : BinaryPattern.fieldWidth view offset endian field = some width)
    (inside : offset + width ≤ view.bitLength) : ∃ value, InRange field value ∧
      encodedBits endian field value = (view.bits.drop offset).take width := by
  cases field with
  | uInt w =>
    cases covers
    obtain ⟨value, fits, bits⟩ := @exists_number endian view offset false w.toNat
      (width_range allowed) inside
    exact ⟨.number value, range_of_unsigned fits, bits⟩
  | int w =>
    cases covers
    obtain ⟨value, fits, bits⟩ := @exists_number endian view offset true w.toNat
      (@width_range w last allowed) inside
    exact ⟨.number value, range_of_signed fits, bits⟩
  | bytes w =>
    have covers : usizeMul w.toNat 8 = some width := covers
    unfold usizeMul at covers
    split at covers
    · obtain rfl : 8 * w.toNat = width := by
        rw [Nat.mul_comm]
        exact Option.some.inj covers
      obtain ⟨bytes, length, bits⟩ := exists_bytes inside
      exact ⟨.bytes bytes, length, bits⟩
    · cases covers
  | bits w =>
    cases covers
    refine ⟨.bits ((view.bits.drop offset).take w.toNat), ?_, rfl⟩
    show ((view.bits.drop offset).take w.toNat).length = w.toNat
    simp
    omega
  | utf8 | utf16 | utf32 => cases plain
  | rest =>
    have covers : (if offset ≤ view.bitLength then
      if (view.bitLength - offset) % 8 = 0 then some (view.bitLength - offset) else none
      else none) = some width := covers
    split at covers
    · split at covers
      · rename_i whole
        obtain ⟨count, eq⟩ := Nat.dvd_of_mod_eq_zero whole
        obtain rfl : 8 * count = width := by
          rw [← eq]
          exact Option.some.inj covers
        obtain ⟨bytes, _, bits⟩ := exists_bytes inside
        exact ⟨.bytes bytes, trivial, bits⟩
      · cases covers
    · cases covers

theorem layoutBits_of_matched {fields : List ManagedBinaryPatternField}
    {ranges : List (Nat × Nat)} (allowed : fieldsAllowed fields = true)
    (plain : ∀ field ∈ fields, BinaryPattern.isUtf field = false)
    (matched : matchedRangesFrom view endian offset fields = some ranges) :
    ∃ values, List.Forall₂ InRange fields values ∧
      view.bits.drop offset = layoutBits endian fields values := by
  induction fields generalizing offset ranges with
  | nil =>
    unfold matchedRangesFrom at matched
    split at matched
    · rename_i finished
      refine ⟨[], .nil, ?_⟩
      rw [finished, ← ManagedBinaryView.length_bits, drop_length]
      rfl
    · cases matched
  | cons field fields ih =>
    obtain ⟨first, others⟩ := Bool.and_eq_true_iff.mp allowed
    unfold matchedRangesFrom at matched
    cases covers : BinaryPattern.fieldWidth view offset endian field with
    | none =>
      rw [covers] at matched
      cases matched
    | some width =>
      rw [covers] at matched
      simp only [bind, Option.bind] at matched
      cases sum : usizeAdd offset width with
      | none =>
        rw [sum] at matched
        cases matched
      | some stop =>
        rw [sum] at matched
        dsimp only at matched
        unfold usizeAdd at sum
        split at sum
        · cases sum
          split at matched
          · cases matched
          rename_i inside
          split at matched
          · cases matched
          cases rest : matchedRangesFrom view endian (offset + width) fields with
          | none =>
            rw [rest] at matched
            cases matched
          | some later =>
            obtain ⟨values, range, bits⟩ := ih others
              (fun f mem => plain f (mem_cons_of_mem _ mem)) rest
            obtain ⟨value, here, encoded⟩ := exists_value first
              (plain field mem_cons_self) covers (Nat.le_of_not_lt inside)
            refine ⟨value :: values, .cons here range, ?_⟩
            rw [layoutBits, encoded, ← bits, ← drop_drop, take_append_drop]
        · cases sum

end Reading

/-! ## Taking a binary apart -/

/-- The binary matches the layout. -/
def Matches (heap : ActorHeap) (endian : Endian) (fields : List ManagedBinaryPatternField)
    (binary : Word) : Prop :=
  ∃ encoded, encodeBinaryPatternMatchesOperation endian fields = .ok encoded ∧
    (executeBinaryPatternOperation encoded [binary]).call heap = (heap, .ok 1)

def extractField (endian : Endian) (fields : List ManagedBinaryPatternField) (binary : Word)
    (selected : Nat) : HeapM Word := do
  let encoded ← encodeBinaryPatternExtractOperation endian fields selected
  executeBinaryPatternOperation encoded [binary]

/-- The fields from a position on, each with the word that is extracted for it. -/
def extractFrom (endian : Endian) (fields : List ManagedBinaryPatternField) (binary : Word) :
    Nat → List ManagedBinaryPatternField → HeapM (List (ManagedBinaryPatternField × Word))
  | _, [] => pure []
  | selected, field :: rest => do
    let word ← extractField endian fields binary selected
    let others ← extractFrom endian fields binary (selected + 1) rest
    pure ((field, word) :: others)

def extractFields (endian : Endian) (fields : List ManagedBinaryPatternField) (binary : Word) :
    HeapM (List (ManagedBinaryPatternField × Word)) :=
  extractFrom endian fields binary 0 fields

theorem fieldsAllowed_of_valid {fields : List ManagedBinaryPatternField}
    (valid : validateFields fields = .ok ()) :
    fields.length ≤ BinaryPattern.maxFields ∧ fieldsAllowed fields = true := by
  unfold validateFields at valid
  split at valid
  · cases valid
  rename_i few
  split at valid
  · rename_i allowed
    exact ⟨Nat.le_of_not_lt few, allowed⟩
  · cases valid

section Operations

variable {fields : List ManagedBinaryPatternField} {binary : Word} {view : ManagedBinaryView}

/-- An operation that was encoded for a layout runs on the view of its binary. -/
theorem call_encoded {tag : UInt8} {reference : Bool} {selected : Nat}
    (valid : validateFields fields = .ok ()) (short : selected < 2 ^ 16)
    (admissible : tag = BinaryPattern.matchesTag ∧ selected = 0 ∧ reference = false ∨
      tag = BinaryPattern.extractTag ∧
        fields[selected]?.map BinaryPattern.fieldIsReference = some reference) :
    ∃ encoded, BinaryPattern.encode tag reference endian fields selected = .ok encoded ∧
      ∀ heap : ActorHeap, (executeBinaryPatternOperation encoded [binary]).call heap =
        (BinaryPattern.executeOperation ⟨tag, endian, selected, fields⟩ binary).call heap := by
  obtain ⟨encoded, run, decoded⟩ :=
    @BinaryPattern.decode_encode tag reference endian fields selected valid short admissible
  refine ⟨encoded, run, fun heap => ?_⟩
  unfold executeBinaryPatternOperation
  rw [call_check_bind, decoded]

theorem call_executeOperation {operation : BinaryPattern.Operation}
    (read : heap.readBinary binary = .ok view) :
    (BinaryPattern.executeOperation operation binary).call heap =
      (BinaryPattern.answer operation view).call heap := by
  unfold BinaryPattern.executeOperation
  rw [call_get_bind, call_check_bind, referenceWord_of_view read]
  dsimp only
  rw [call_check_bind, read]

theorem matches_iff (valid : validateFields fields = .ok ())
    (read : heap.readBinary binary = .ok view) : Matches heap endian fields binary ↔
      ∃ ranges, BinaryPattern.matchedRanges view endian fields = some ranges := by
  obtain ⟨encoded, encodes, run⟩ := @call_encoded endian fields binary BinaryPattern.matchesTag
    false 0 valid (by decide) (.inl ⟨rfl, rfl, rfl⟩)
  have result := (run heap).trans (call_executeOperation read)
  unfold BinaryPattern.answer at result
  constructor
  · rintro ⟨encoded', encodes', matched⟩
    cases encodes.symm.trans encodes'
    rw [matched] at result
    cases found : BinaryPattern.matchedRanges view endian fields with
    | none =>
      rw [found] at result
      cases result
    | some ranges => exact ⟨ranges, rfl⟩
  · rintro ⟨ranges, matched⟩
    rw [matched] at result
    exact ⟨encoded, encodes, result⟩

theorem yields_allocateExtracted {field : ManagedBinaryPatternField} {value : FieldValue}
    (range : InRange field value)
    (small : (encodedBits endian field value).length < 2 ^ 40) :
    Yields (BinaryPattern.allocateExtracted value.extracted) heap fun heap' word =>
      Denotes heap' field word value := by
  cases value with
  | number value =>
    refine yields_pure ⟨?_, rfl⟩
    cases field <;> first | rfl | cases range
  | bytes bytes =>
    have length : (encodedBits endian field (.bytes bytes)).length = 8 * bytes.length := by
      cases field with
      | bytes _ | rest => exact length_bitsOf bytes
      | _ => cases range
    exact yields_allocateBytes bytes (by omega)
  | bits bits =>
    have length : (encodedBits endian field (.bits bits)).length = bits.length := by
      cases field with
      | bits _ => rfl
      | _ => cases range
    exact yields_allocatePacked_packBits (by omega)

theorem yields_extractField {values : List FieldValue} {selected : Nat}
    {field : ManagedBinaryPatternField} {value : FieldValue}
    (valid : validateFields fields = .ok ()) (range : List.Forall₂ InRange fields values)
    (has : HasBits heap binary (layoutBits endian fields values))
    (listed : fields[selected]? = some field) (carried : values[selected]? = some value) :
    Yields (extractField endian fields binary selected) heap fun heap' word =>
      Denotes heap' field word value := by
  have small := has.small
  obtain ⟨few, allowed⟩ := fieldsAllowed_of_valid valid
  obtain ⟨view, read, bits⟩ := has
  rw [← bits, ManagedBinaryView.length_bits] at small
  obtain ⟨ranges, matched, reads⟩ := matchedRangesFrom_layoutBits allowed range
    (Nat.zero_le view.bitLength) (by rw [drop_zero, bits])
  obtain ⟨start, width, placed, extracts, inside⟩ := reads selected field value listed carried
  have short : selected < 2 ^ 16 := by
    have below := (List.getElem?_eq_some_iff.mp listed).1
    unfold BinaryPattern.maxFields at few
    omega
  obtain ⟨encoded, encodes, run⟩ := @call_encoded endian fields binary BinaryPattern.extractTag
    (BinaryPattern.fieldIsReference field) selected valid short
    (.inr ⟨rfl, by rw [listed]; rfl⟩)
  have inRange : InRange field value := by
    have pair := List.forall₂_iff_get.mp range
    obtain ⟨below, rfl⟩ := List.getElem?_eq_some_iff.mp listed
    obtain ⟨below', rfl⟩ := List.getElem?_eq_some_iff.mp carried
    exact pair.2 selected below below'
  have made := @yields_allocateExtracted heap endian field value inRange (by omega)
  unfold extractField
  refine yields_check_bind (a := encoded) ?_ ?_
  · unfold encodeBinaryPatternExtractOperation
    rw [listed]
    exact encodes
  · unfold Yields at made ⊢
    rw [run heap, call_executeOperation read]
    have answers : (BinaryPattern.answer ⟨BinaryPattern.extractTag, endian, selected, fields⟩
        view).call heap = (BinaryPattern.allocateExtracted value.extracted).call heap := by
      unfold BinaryPattern.answer BinaryPattern.matchedRanges
      dsimp only
      rw [matched]
      dsimp only
      rw [if_neg (by decide), listed, placed]
      dsimp only
      rw [call_check_bind, extracts]
    rw [answers]
    exact made

theorem yields_extractFrom {values : List FieldValue} (valid : validateFields fields = .ok ())
    (range : List.Forall₂ InRange fields values)
    (has : HasBits heap binary (layoutBits endian fields values))
    {rest : List ManagedBinaryPatternField} {later : List FieldValue} {selected : Nat}
    (fieldsFrom : fields.drop selected = rest) (valuesFrom : values.drop selected = later)
    (ranges : List.Forall₂ InRange rest later) :
    Yields (extractFrom endian fields binary selected rest) heap fun heap' bound =>
      layout bound = rest ∧ List.Forall₂ (Carries heap') bound later := by
  induction ranges generalizing heap selected with
  | nil => exact yields_pure ⟨rfl, .nil⟩
  | @cons field value rest later here _ ih =>
    have listed : fields[selected]? = some field := by
      rw [← head?_drop, fieldsFrom]
      rfl
    have carried : values[selected]? = some value := by
      rw [← head?_drop, valuesFrom]
      rfl
    have fieldsFrom' : fields.drop (selected + 1) = rest := by
      rw [← drop_drop, fieldsFrom]
      rfl
    have valuesFrom' : values.drop (selected + 1) = later := by
      rw [← drop_drop, valuesFrom]
      rfl
    refine (yields_extractField valid range has listed carried).bind fun heap₁ word kept first => ?_
    refine (ih (has.extend kept) fieldsFrom' valuesFrom').bind fun heap₂ others kept' all => ?_
    refine yields_pure ⟨?_, .cons ⟨first.extend kept', here⟩ all.2⟩
    rw [layout, map_cons]
    exact congrArg _ all.1

end Operations

/-- The pattern finds the values in the binary. -/
def Reads (heap : ActorHeap) (endian : Endian) (fields : List ManagedBinaryPatternField)
    (binary : Word) (values : List FieldValue) : Prop :=
  Matches heap endian fields binary ∧
    ∀ (selected : Nat) (field : ManagedBinaryPatternField) (value : FieldValue),
      fields[selected]? = some field → values[selected]? = some value →
      Yields (extractField endian fields binary selected) heap fun heap' word =>
        Denotes heap' field word value

/-- Construction and pattern are inverse to each other, as far as there is room. -/
theorem binary_layouts_invert (endian : Endian) :
    (∀ (heap : ActorHeap) (bound : List (ManagedBinaryPatternField × Word))
        (values : List FieldValue), validateFields (layout bound) = .ok () →
      List.Forall₂ (Carries heap) bound values →
      Yields (construct endian bound) heap fun heap' built => ∃ bits, Built heap' built bits ∧
        ∀ (later : ActorHeap) (binary : Word), HasBits later binary bits →
          Reads later endian (layout bound) binary values) ∧
    ∀ (heap : ActorHeap) (fields : List ManagedBinaryPatternField) (binary : Word)
        (bits : List Bool), validateFields fields = .ok () →
      (∀ field ∈ fields, BinaryPattern.isUtf field = false) → HasBits heap binary bits →
      Matches heap endian fields binary →
      Yields (do construct endian (← extractFields endian fields binary)) heap
        fun heap' built => Built heap' built bits := by
  constructor
  · intro heap bound values valid carries
    have allowed := (fieldsAllowed_of_valid valid).2
    have range : List.Forall₂ InRange (layout bound) values :=
      List.forall₂_map_left_iff.mpr (carries.imp fun _ _ h => h.2)
    refine (yields_construct allowed carries).mono fun heap' built _ made => ⟨_, made, ?_⟩
    intro later binary has
    refine ⟨?_, fun selected field value listed carried =>
      yields_extractField valid range has listed carried⟩
    obtain ⟨view, read, bits⟩ := has
    obtain ⟨ranges, matched, _⟩ := matchedRangesFrom_layoutBits allowed range
      (Nat.zero_le view.bitLength) (by rw [drop_zero, bits])
    exact (matches_iff valid read).mpr ⟨ranges, matched⟩
  · intro heap fields binary bits valid plain has matched
    obtain ⟨view, read, rfl⟩ := has
    have allowed := (fieldsAllowed_of_valid valid).2
    obtain ⟨ranges, found⟩ := (matches_iff valid read).mp matched
    obtain ⟨values, range, encoded⟩ := layoutBits_of_matched allowed plain found
    rw [drop_zero] at encoded
    have has : HasBits heap binary (layoutBits endian fields values) := ⟨view, read, encoded⟩
    have taken := @yields_extractFrom heap endian fields binary values valid range has fields values
      0 drop_zero drop_zero range
    refine Yields.bind taken fun heap' bound _ all => ?_
    obtain ⟨rfl, carries⟩ := all
    rw [encoded]
    exact yields_construct allowed carries

/-- A three-bit number, a signed number across a byte, a pair of surrogates and what is left. -/
def sampleLayout : List (ManagedBinaryPatternField × Word) :=
  [(.uInt 3, 5), (.int 11, -2), (.utf16, 0x1f600), (.bits 2, 0x700000019),
    (.rest, 0x700000001)]

def sampleValues : List FieldValue :=
  [.number 5, .number (-2), .number 0x1f600, .bits [true, false], .bytes [1, 2, 3]]

/-- Three bytes, and the first two bits of one more. -/
def sampleHeap : ActorHeap where
  token := 7
  retiredTokens := []
  hardBytes := 4096
  space := 48
  objects := [(0, .bytes [1, 2, 3]), (16, .bytes [0x80]), (24, .binary 0x700000011 0 2)]
  placed := by decide
  bounded := by decide

theorem sample_carries : List.Forall₂ (Carries sampleHeap) sampleLayout sampleValues := by
  have bytes : HasBytes sampleHeap 0x700000001 [1, 2, 3] :=
    hasBytes_iff.mpr (ActorHeap.read_eq_ok_iff.mpr ⟨by decide, 0, by decide, rfl⟩)
  have storage : HasBytes sampleHeap 0x700000011 [0x80] :=
    hasBytes_iff.mpr (ActorHeap.read_eq_ok_iff.mpr ⟨by decide, 16, by decide, rfl⟩)
  have bits : HasBits sampleHeap 0x700000019 [true, false] :=
    ⟨⟨[0x80], 0, 2, by decide⟩, readBinary_eq_ok_iff.mpr ⟨0x700000011,
      ActorHeap.read_eq_ok_iff.mpr ⟨by decide, 24, by decide, rfl⟩, storage⟩, by decide⟩
  have small : (0 : Int) ≤ (5 : Word).toInt ∧ (5 : Word).toInt < 2 ^ (3 : UInt64).toNat := by decide
  have signed : -2 ^ ((11 : UInt64).toNat - 1) ≤ (-2 : Word).toInt ∧
      (-2 : Word).toInt < 2 ^ ((11 : UInt64).toNat - 1) := by decide
  have scalar : (0x1f600 : Word).toInt = ('😀' : Char).toNat := by decide
  exact .cons ⟨⟨rfl, rfl⟩, small⟩ (.cons ⟨⟨rfl, rfl⟩, signed⟩ (.cons ⟨⟨rfl, rfl⟩, _, scalar⟩
    (.cons ⟨bits, rfl⟩ (.cons ⟨bytes, trivial⟩ .nil))))

theorem binary_layouts_invert_sample :
    Yields (construct .little sampleLayout) sampleHeap fun heap' built =>
      ∃ bits, Built heap' built bits ∧ ∀ (later : ActorHeap) (binary : Word),
        HasBits later binary bits →
        Reads later .little (layout sampleLayout) binary sampleValues :=
  (binary_layouts_invert .little).1 sampleHeap sampleLayout sampleValues rfl sample_carries

end BinaryLayout

end Terlan.Managed
