/-
  Unicode scalar values in binaries: what is written in one of the three formats is read back,
  and its width is known from its first byte or unit.
-/
import Terlan.Managed.Segments

namespace Terlan.Managed

open Terlan.Lib List

namespace BitString

/-! ## Units -/

theorem bitAt_append_left {left right : List UInt8} {j : Nat} (inside : j < 8 * left.length) :
    bitAt (left ++ right) j = bitAt left j := by
  unfold bitAt
  rw [getD_append _ _ _ _ (by omega)]

theorem bitAt_append_right {left right : List UInt8} (j : Nat) :
    bitAt (left ++ right) (8 * left.length + j) = bitAt right j := by
  unfold bitAt
  rw [getD_append_right _ _ _ _ (by omega)]
  congr 2
  · congr 1
    omega
  · omega

theorem bitAt_singleton {unit j : Nat} (small : j < 8) :
    bitAt [UInt8.ofNat unit] j = unit.testBit (7 - j) := by
  unfold bitAt
  rw [show j / 8 = 0 by omega, show j % 8 = j by omega, getD_cons_zero, UInt8.toNat_ofNat',
    Nat.testBit_mod_two_pow, decide_eq_true (by omega : 7 - j < 8), Bool.true_and]

theorem testBit_div_256 (unit i : Nat) : (unit / 256).testBit i = unit.testBit (i + 8) := by
  have shift : unit / 256 = unit >>> 8 := by rw [Nat.shiftRight_eq_div_pow]
  rw [shift, Nat.testBit_shiftRight, Nat.add_comm]

variable (endian : Endian)

/-- The bits of a unit stand where those of a number of its width do. -/
theorem bitAt_unitBytes {width unit j : Nat} (inside : j < 8 * width) :
    bitAt (unitBytes endian width unit) j = unit.testBit (bitPlace endian (8 * width) j) := by
  cases endian with
  | big =>
    show bitAt (beBytes width unit) j = unit.testBit (8 * width - 1 - j)
    induction width generalizing unit with
    | zero => omega
    | succ width ih =>
      rw [beBytes]
      rcases Nat.lt_or_ge j (8 * width) with before | after
      · rw [bitAt_append_left (by simpa using before), ih before, testBit_div_256]
        congr 1
        omega
      obtain ⟨i, rfl⟩ := Nat.exists_eq_add_of_le after
      have place := @bitAt_append_right (beBytes width (unit / 256)) [UInt8.ofNat unit] i
      rw [length_beBytes] at place
      rw [place, bitAt_singleton (by omega)]
      congr 1
      omega
  | little =>
    show bitAt (leBytes width unit) j =
      unit.testBit (j / 8 * 8 + (min (8 * width - j / 8 * 8) 8 - 1 - j % 8))
    induction width generalizing unit j with
    | zero => omega
    | succ width ih =>
      rw [leBytes, beBytes, reverse_append, reverse_singleton]
      rcases Nat.lt_or_ge j 8 with first | later
      · rw [bitAt_append_left (by simpa using first), bitAt_singleton first]
        congr 1
        omega
      obtain ⟨i, rfl⟩ := Nat.exists_eq_add_of_le later
      refine (@bitAt_append_right [UInt8.ofNat unit] _ i).trans ?_
      refine (@ih (unit / 256) i (by omega)).trans ?_
      rw [testBit_div_256]
      congr 1
      omega

@[simp] theorem length_unitBytes (width unit : Nat) :
    (unitBytes endian width unit).length = width := by
  cases endian <;> simp [unitBytes]

theorem ofUnitBytes_unitBytes {width unit : Nat} (small : unit < 256 ^ width) :
    ofUnitBytes endian (unitBytes endian width unit) = unit := by
  cases endian with
  | big => exact ofBeBytes_beBytes small
  | little => exact ofLeBytes_leBytes small

theorem integerBits_unit {width unit : Nat} (small : unit < 2 ^ 64) :
    integerBits endian (8 * width) (BitVec.ofNat 64 unit) =
      bitsOf (unitBytes endian width unit) := by
  refine ext_getElem (by simp) fun j inside inside' => ?_
  rw [length_integerBits] at inside
  rw [← getD_eq_getElem _ false, ← getD_eq_getElem _ false, getD_integerBits inside,
    getD_bitsOf, bitAt_unitBytes endian inside, BitVec.getLsbD, BitVec.toNat_ofNat,
    Nat.mod_eq_of_lt small]

section Widths

variable {view : ManagedBinaryView} {offset : Nat} {endian : Endian}

theorem decodeInteger_unit {width unit : Nat} (range : 1 ≤ width ∧ width ≤ 2)
    (small : unit < 2 ^ (8 * width))
    (found : BitsAt view offset (bitsOf (unitBytes endian width unit))) :
    BinaryPattern.decodeInteger view offset (8 * width) false endian =
      .ok (BitVec.ofNat 64 unit) := by
  have bound : 2 ^ (8 * width) ≤ 2 ^ 16 := Nat.pow_le_pow_right (by decide) (by omega)
  rw [← integerBits_unit endian (by omega)] at found
  refine found.decodeInteger (by omega) ((integerFits_unsigned_iff (by omega)).mpr ?_)
  refine clear_above_iff.mpr ?_
  rw [BitVec.toNat_ofNat, Nat.mod_eq_of_lt (by omega)]
  exact small

/-! ## UTF-8 -/

variable (scalar : Char)

theorem scalar_range : scalar.toNat < 0xd800 ∨ 0xdfff < scalar.toNat ∧ scalar.toNat < 0x110000 :=
  scalar.valid

theorem utf8Single_encode : utf8Single (String.utf8EncodeChar scalar) = some scalar := by
  unfold utf8Single
  rw [← utf8Encode_singleton, utf8Decode?_utf8Encode]

/-- The first byte of a scalar value tells how many there are. -/
theorem utf8EncodeChar_first : ∃ first bytes,
    String.utf8EncodeChar scalar = UInt8.ofNat first :: bytes ∧ first < 256 ∧
      (first ≤ 0x7f ∧ bytes.length = 0 ∨ (0xc2 ≤ first ∧ first ≤ 0xdf) ∧ bytes.length = 1 ∨
        (0xe0 ≤ first ∧ first ≤ 0xef) ∧ bytes.length = 2 ∨
          (0xf0 ≤ first ∧ first ≤ 0xf4) ∧ bytes.length = 3) := by
  have range : scalar.val.toNat < 0xd800 ∨ 0xdfff < scalar.val.toNat ∧
      scalar.val.toNat < 0x110000 := scalar_range scalar
  unfold String.utf8EncodeChar
  dsimp only
  split
  · exact ⟨_, _, rfl, by omega, .inl ⟨by omega, rfl⟩⟩
  split
  · exact ⟨_, _, rfl, by omega, .inr (.inl ⟨by omega, rfl⟩)⟩
  · split
    · exact ⟨_, _, rfl, by omega, .inr (.inr (.inl ⟨by omega, rfl⟩))⟩
    · exact ⟨_, _, rfl, by omega, .inr (.inr (.inr ⟨by omega, rfl⟩))⟩

theorem utf8Width_encoded (found : BitsAt view offset (bitsOf (String.utf8EncodeChar scalar))) :
    BinaryPattern.utf8Width view offset = some (bitsOf (String.utf8EncodeChar scalar)).length := by
  obtain ⟨first, bytes, encoded, small, widths⟩ := utf8EncodeChar_first scalar
  rw [length_bitsOf, encoded, length_cons]
  rw [encoded, bitsOf_cons] at found
  have read : BinaryPattern.decodeInteger view offset 8 false .big = .ok (BitVec.ofNat 64 first) :=
    @decodeInteger_unit view offset .big 1 first (by decide) small found.left
  unfold BinaryPattern.utf8Width
  rw [read]
  have value : (BitVec.ofNat 64 first).toNat % 256 = first := by
    rw [BitVec.toNat_ofNat]
    omega
  simp only [Except.toOption, bind, Option.bind, value]
  rcases widths with ⟨h, length⟩ | ⟨h, length⟩ | ⟨h, length⟩ | ⟨h, length⟩
  · rw [if_pos h, length]
  · rw [if_neg (by omega), if_pos h, length]
  · rw [if_neg (by omega), if_neg (by omega), if_pos h, length]
  · rw [if_neg (by omega), if_neg (by omega), if_neg (by omega), if_pos h, length]

/-! ## UTF-16 -/

theorem byteUnits_flatMap (endian : Endian) {units : List Nat}
    (small : ∀ unit ∈ units, unit < 2 ^ 16) :
    byteUnits endian (units.flatMap (unitBytes endian 2)) = units := by
  induction units with
  | nil => rfl
  | cons unit units ih =>
    have bytes : ∃ first second, unitBytes endian 2 unit = [first, second] :=
      length_eq_two.mp (length_unitBytes endian 2 unit)
    obtain ⟨first, second, bytes⟩ := bytes
    have value := @ofUnitBytes_unitBytes endian 2 unit (small unit mem_cons_self)
    rw [bytes] at value
    rw [flatMap_cons, bytes]
    change ofUnitBytes endian [first, second] ::
      byteUnits endian (units.flatMap (unitBytes endian 2)) = _
    rw [value, ih fun unit mem => small unit (mem_cons_of_mem _ mem)]

/-- A scalar value is one unit or a pair of surrogates. -/
theorem encodeUtf16Units_cases : (encodeUtf16Units scalar = [scalar.toNat] ∧ scalar.toNat < 2 ^ 16 ∧
      (scalar.toNat < 0xd800 ∨ 0xdfff < scalar.toNat)) ∨
    ∃ high low, encodeUtf16Units scalar = [0xd800 + high, 0xdc00 + low] ∧ high < 0x400 ∧
      low < 0x400 ∧ scalar.toNat = 0x10000 + high * 0x400 + low := by
  have range := scalar_range scalar
  unfold encodeUtf16Units
  split
  · rename_i small
    exact .inl ⟨rfl, small, range.imp_right fun h => h.1⟩
  · exact .inr ⟨(scalar.toNat - 0x10000) / 0x400, (scalar.toNat - 0x10000) % 0x400, rfl,
      by omega, by omega, by omega⟩

theorem utf16Single_encode (endian : Endian) (scalar : Char) :
    utf16Single endian (utf16Bytes endian scalar) = some scalar := by
  unfold utf16Single utf16Bytes
  rcases encodeUtf16Units_cases scalar with ⟨units, small, plain⟩ | ⟨high, low, units, hi, lo, sum⟩
  · rw [byteUnits_flatMap endian (by rw [units]; simpa using small), units, decodeUtf16,
      if_pos plain, decodeUtf16, Char.ofNat_toNat]
  · rw [byteUnits_flatMap endian (by rw [units]; simp; omega), units, decodeUtf16,
      if_neg (by omega), if_neg (by omega), if_neg (by omega), decodeUtf16, Nat.add_sub_cancel_left, Nat.add_sub_cancel_left, ← sum,
      Char.ofNat_toNat]

theorem utf16Width_encoded (found : BitsAt view offset (bitsOf (utf16Bytes endian scalar))) :
    BinaryPattern.utf16Width view offset endian =
      some (bitsOf (utf16Bytes endian scalar)).length := by
  unfold utf16Bytes at found ⊢
  unfold BinaryPattern.utf16Width
  rw [length_bitsOf]
  rcases encodeUtf16Units_cases scalar with ⟨units, small, plain⟩ | ⟨high, low, units, hi, lo, sum⟩
  · rw [units, flatMap_cons, flatMap_nil, append_nil] at found ⊢
    have read := @decodeInteger_unit view offset endian 2 _ (by decide) small found
    rw [read, length_unitBytes]
    have value : (BitVec.ofNat 64 scalar.toNat).toNat % 2 ^ 16 = scalar.toNat := by
      rw [BitVec.toNat_ofNat]
      omega
    simp only [Except.toOption, bind, Option.bind, value]
    rw [if_neg (by omega)]
  · rw [units, flatMap_cons, bitsOf_append] at found
    have read := @decodeInteger_unit view offset endian 2 _ (by decide) (by omega) found.left
    rw [read, units, flatMap_cons, flatMap_cons, flatMap_nil, append_nil,
      length_append, length_unitBytes, length_unitBytes]
    have value : (BitVec.ofNat 64 (0xd800 + high)).toNat % 2 ^ 16 = 0xd800 + high := by
      rw [BitVec.toNat_ofNat]
      omega
    simp only [Except.toOption, bind, Option.bind, value]
    rw [if_pos (by omega)]

/-! ## UTF-32 -/

theorem charFromU32_toNat : charFromU32 scalar.toNat = some scalar := by
  unfold charFromU32
  rw [dif_pos (scalar_range scalar), Char.ofNat_toNat]

theorem utf32Single_encode (endian : Endian) (scalar : Char) :
    utf32Single endian (utf32Bytes endian scalar) = some scalar := by
  have range := scalar_range scalar
  unfold utf32Single utf32Bytes
  rw [if_pos (length_unitBytes endian 4 _), ofUnitBytes_unitBytes endian (by omega),
    charFromU32_toNat]

end Widths

end BitString

end Terlan.Managed
