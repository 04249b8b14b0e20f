/-
  The bits that the operations on bitstrings make. A binary is described by the list of its
  bits; each operation that makes one has a lemma about that list.
-/
import Terlan.Managed.BinaryPattern

namespace Terlan.Managed

open Terlan.Lib List

namespace BitString

variable {heap : ActorHeap}

/-! ## Copying bits -/

variable {view : ManagedBinaryView}

theorem viewBit_eq {index : Nat} (inside : index < view.bitLength) :
    viewBit view index = .ok (view.bits.getD index false) := by
  have listed : index < view.bits.length := by simpa using inside
  unfold viewBit
  rw [view.bit_eq, getElem?_eq_getElem listed, getD_eq_getElem _ _ listed]

theorem copyRange_eq {start count : Nat}
    (inside : start + count ≤ view.bitLength) (offset : Nat) (output : List UInt8) :
    copyRange view start count offset output =
      .ok ((List.range count).foldl (fun output index =>
        if view.bits.getD (start + index) false then setBit output (offset + index) else output)
        output) := by
  refine foldlM_eq_ok fun output index mem => ?_
  have := mem_range.mp mem
  rw [viewBit_eq (by omega)]
  rfl

theorem packRange_eq {start count : Nat} (inside : start + count ≤ view.bitLength) :
    packRange view start count = .ok (packBits ((view.bits.drop start).take count)) := by
  have length : ((view.bits.drop start).take count).length = count := by
    simp
    omega
  unfold packRange
  rw [copyRange_eq inside, packBits, length]
  refine congrArg Except.ok (foldl_ext _ _ _ fun output index mem => ?_)
  have small : index < count := mem_range.mp mem
  have bit : ((view.bits.drop start).take count).getD index false =
      view.bits.getD (start + index) false := by
    simp [getD_eq_getElem?_getD, small]
  rw [bit, Nat.zero_add]

/-- The output of a copy has the bits it had, and those of the range. -/
theorem bitAt_copied {output : List UInt8} {start count offset : Nat}
    (room : offset + count ≤ 8 * output.length) (j : Nat) :
    bitAt ((List.range count).foldl (fun output index =>
        if view.bits.getD (start + index) false then setBit output (offset + index) else output)
        output) j =
      (bitAt output j || (decide (offset ≤ j ∧ j < offset + count) &&
        view.bits.getD (start + (j - offset)) false)) := by
  rw [bitAt_foldl_setBit _ _ _ fun index mem => by
    have := mem_range.mp mem
    omega]
  congr 1
  rw [Bool.eq_iff_iff]
  simp only [any_eq_true, mem_range, Bool.and_eq_true, decide_eq_true_eq]
  constructor
  · rintro ⟨index, small, set, rfl⟩
    refine ⟨⟨by omega, by omega⟩, ?_⟩
    rw [Nat.add_sub_cancel_left]
    exact set
  · rintro ⟨⟨above, below⟩, set⟩
    exact ⟨j - offset, by omega, set, by omega⟩

/-! ## Packed bytes -/

theorem take_bitsOf {packed : List UInt8} {bits : List Bool}
    (room : bits.length ≤ 8 * packed.length)
    (same : ∀ j < bits.length, bitAt packed j = bits.getD j false) :
    (bitsOf packed).take bits.length = bits := by
  refine ext_getElem (by simp; omega) fun j inside inside' => ?_
  rw [getElem_take, ← getD_eq_getElem _ false, getD_bitsOf, same j inside',
    getD_eq_getElem _ _ inside']

theorem yields_allocatePacked {packed : List UInt8} {bits : List Bool}
    (room : bits.length ≤ 8 * packed.length) (small : packed.length < 2 ^ 60)
    (same : ∀ j < bits.length, bitAt packed j = bits.getD j false) :
    Yields (allocatePacked packed bits.length) heap fun heap' value =>
      HasBits heap' value bits := by
  unfold allocatePacked
  refine (yields_allocateBytes packed small).bind fun heap' storage _ has => ?_
  refine (yields_allocateBinary has (by omega)).mono fun heap'' value _ made => ?_
  rw [drop_zero, take_bitsOf room same] at made
  exact made

theorem yields_allocatePacked_packBits {bits : List Bool} (small : bits.length < 2 ^ 60) :
    Yields (allocatePacked (packBits bits) bits.length) heap fun heap' value =>
      HasBits heap' value bits :=
  yields_allocatePacked (by simp; omega) (by simp; omega) fun j _ => bitAt_packBits bits j

theorem yields_allocatePacked_bytes {packed : List UInt8} (small : packed.length < 2 ^ 60) :
    Yields (allocatePacked packed (packed.length * 8)) heap fun heap' value =>
      HasBits heap' value (bitsOf packed) := by
  have length : packed.length * 8 = (bitsOf packed).length := by
    rw [length_bitsOf, Nat.mul_comm]
  rw [length]
  exact yields_allocatePacked (by simp) small fun j _ => (getD_bitsOf packed j).symm

/-! ## References -/

theorem referenceWord_of_read {reference : Word} {object : ManagedObject}
    (found : heap.read reference = .ok object) : referenceWord reference = .ok reference := by
  refine if_neg fun zero => ?_
  obtain ⟨_, offset, low, _⟩ := ActorHeap.read_eq_ok_iff.mp found
  subst zero
  cases low

variable {value : Word}

theorem referenceWord_of_bytes {bytes : List UInt8}
    (has : HasBytes heap value bytes) : referenceWord value = .ok value :=
  referenceWord_of_read (hasBytes_iff.mp has)

theorem referenceWord_of_view
    (read : heap.readBinary value = .ok view) : referenceWord value = .ok value := by
  obtain ⟨storage, found, _⟩ := readBinary_eq_ok_iff.mp read
  exact referenceWord_of_read found

/-! ## Joining -/

/-- What `concatenate` has written. -/
def joined (left right : ManagedBinaryView) : List UInt8 :=
  (List.range right.bitLength).foldl
    (fun output index =>
      if right.bits.getD (0 + index) false then setBit output (left.bitLength + index) else output)
    ((List.range left.bitLength).foldl
      (fun output index =>
        if left.bits.getD (0 + index) false then setBit output (0 + index) else output)
      (List.replicate (divCeil (left.bitLength + right.bitLength) 8) 0))

@[simp] theorem length_joined (left right : ManagedBinaryView) :
    (joined left right).length = divCeil (left.bitLength + right.bitLength) 8 := by
  unfold joined
  rw [length_foldl_setBit, length_foldl_setBit, length_replicate]

theorem bitAt_joined (left right : ManagedBinaryView) (j : Nat) :
    bitAt (joined left right) j = (left.bits ++ right.bits).getD j false := by
  unfold joined
  rw [bitAt_copied, bitAt_copied, bitAt_zeros]
  · rw [Bool.false_or, Nat.zero_add]
    simp only [Nat.zero_add, Nat.zero_le, Nat.sub_zero, true_and]
    rcases Nat.lt_or_ge j left.bitLength with inside | past
    · rw [getD_append _ _ _ _ (by simpa using inside)]
      simp [inside, Nat.not_le.mpr inside]
    rw [getD_append_right _ _ _ _ (by simpa using past), ManagedBinaryView.length_bits]
    rcases Nat.lt_or_ge j (left.bitLength + right.bitLength) with before | after
    · simp [past, Nat.not_lt.mpr past, before]
    have none : right.bits.length ≤ j - left.bitLength := by
      rw [ManagedBinaryView.length_bits]
      omega
    rw [getD_eq_default _ _ none]
    simp [Nat.not_lt.mpr past, Nat.not_lt.mpr after]
  · rw [length_replicate, divCeil]
    omega
  · rw [length_foldl_setBit, length_replicate, divCeil]
    omega

theorem yields_concatenate {left right : Word} {leftBits rightBits : List Bool}
    (hasLeft : HasBits heap left leftBits) (hasRight : HasBits heap right rightBits) :
    Yields (concatenate [left, right]) heap fun heap' value =>
      HasBits heap' value (leftBits ++ rightBits) := by
  have smallLeft := hasLeft.small
  have smallRight := hasRight.small
  obtain ⟨leftView, readLeft, rfl⟩ := hasLeft
  obtain ⟨rightView, readRight, rfl⟩ := hasRight
  rw [ManagedBinaryView.length_bits] at smallLeft smallRight
  have fits : leftView.bitLength + rightView.bitLength < usizeLimit := by
    unfold usizeLimit
    omega
  have total : (leftView.bits ++ rightView.bits).length =
      leftView.bitLength + rightView.bitLength := by simp
  unfold concatenate
  refine yields_get_bind (yields_check_bind (referenceWord_of_view readLeft) ?_)
  refine yields_check_bind readLeft (yields_check_bind (referenceWord_of_view readRight) ?_)
  refine yields_check_bind readRight ?_
  rw [usizeAdd, if_pos fits]
  refine yields_check_bind (copyRange_eq (by omega) _ _) ?_
  refine yields_check_bind (copyRange_eq (by omega) _ _) ?_
  have length := length_joined leftView rightView
  unfold divCeil at length
  have made := @yields_allocatePacked heap (joined leftView rightView)
    (leftView.bits ++ rightView.bits) (by omega) (by omega) fun j _ =>
      bitAt_joined leftView rightView j
  rw [total] at made
  exact made

/-! ## Integers -/

/-- Where a bit of a number stands in the binary; at the same time, which bit of the number
stands at a place of the binary. -/
def bitPlace (endian : Endian) (width j : Nat) : Nat :=
  match endian with
  | .big => width - 1 - j
  | .little => j / 8 * 8 + (min (width - j / 8 * 8) 8 - 1 - j % 8)

variable {endian : Endian} {width j : Nat}

theorem bitPlace_lt (inside : j < width) : bitPlace endian width j < width := by
  cases endian with
  | big | little => simp only [bitPlace]; omega

theorem bitPlace_bitPlace (inside : j < width) :
    bitPlace endian width (bitPlace endian width j) = j := by
  cases endian with
  | big => simp only [bitPlace]; omega
  | little =>
    simp only [bitPlace]
    have low : min (width - j / 8 * 8) 8 - 1 - j % 8 < 8 := by omega
    have group : (j / 8 * 8 + (min (width - j / 8 * 8) 8 - 1 - j % 8)) / 8 = j / 8 := by omega
    rw [group]
    omega

/-- The bits of a number as they stand in the binary. -/
def integerBits (endian : Endian) (width : Nat) (value : Word) : List Bool :=
  (List.range width).map fun j => value.getLsbD (bitPlace endian width j)

@[simp] theorem length_integerBits (endian : Endian) (width : Nat) (value : Word) :
    (integerBits endian width value).length = width := by
  simp [integerBits]

theorem getD_integerBits (inside : j < width) :
    (integerBits endian width value).getD j false = value.getLsbD (bitPlace endian width j) := by
  rw [getD_eq_getElem _ _ (by simpa using inside)]
  simp [integerBits]

/-- One group, its highest bit first. -/
theorem writeGroup (raw : Word) (groupStart n : Nat) {packed : List UInt8} {outputBit : Nat}
    (room : outputBit + n ≤ 8 * packed.length) :
    let written := (List.range n).reverse.foldl
      (fun (state : List UInt8 × Nat) groupBit =>
        (if raw.getLsbD (groupStart + groupBit) then setBit state.1 state.2 else state.1,
          state.2 + 1))
      (packed, outputBit)
    written.2 = outputBit + n ∧ written.1.length = packed.length ∧
      ∀ j, bitAt written.1 j = (bitAt packed j || (decide (outputBit ≤ j ∧ j < outputBit + n) &&
        raw.getLsbD (groupStart + (n - 1 - (j - outputBit))))) := by
  induction n generalizing packed outputBit with
  | zero =>
    refine ⟨rfl, rfl, fun j => ?_⟩
    simp
  | succ n ih =>
    dsimp only
    rw [range_succ, reverse_append, reverse_singleton, singleton_append,
      foldl_cons]
    have length : (if raw.getLsbD (groupStart + n) then setBit packed outputBit
        else packed).length = packed.length := by
      split <;> simp
    obtain ⟨place, same, bits⟩ := @ih
      (if raw.getLsbD (groupStart + n) then setBit packed outputBit else packed)
      (outputBit + 1) (by omega)
    refine ⟨by rw [place]; omega, same.trans length, fun j => ?_⟩
    rw [bits j]
    have first : bitAt (if raw.getLsbD (groupStart + n) then setBit packed outputBit
        else packed) j =
        (bitAt packed j || (raw.getLsbD (groupStart + n) && decide (outputBit = j))) := by
      split
      · rename_i set
        rw [bitAt_setBit (by omega), set, Bool.true_and]
      · rename_i clear
        simp [clear]
    rw [first, Bool.or_assoc]
    congr 1
    rcases Nat.lt_trichotomy j outputBit with before | rfl | after
    · simp [Nat.ne_of_gt before, Nat.not_le.mpr before,
        show ¬ outputBit + 1 ≤ j by omega]
    · simp
    have index : n + 1 - 1 - (j - outputBit) = n - 1 - (j - (outputBit + 1)) := by omega
    rw [index]
    simp [Nat.ne_of_lt after, show outputBit + 1 ≤ j by omega, show outputBit ≤ j by omega,
      show (j < outputBit + 1 + n) = (j < outputBit + (n + 1)) by rw [Nat.add_right_comm]; rfl]

/-- A group, and what is left of the number after it. -/
theorem group_place {groupStart : Nat} (more : groupStart < width)
    (aligned : groupStart % 8 = 0) (bit : Nat → Bool) :
    (decide (groupStart ≤ j ∧ j < groupStart + min (width - groupStart) 8) &&
        bit (groupStart + (min (width - groupStart) 8 - 1 - (j - groupStart))) ||
      decide (groupStart + min (width - groupStart) 8 ≤ j ∧ j < width) &&
        bit (bitPlace .little width j)) =
      (decide (groupStart ≤ j ∧ j < width) && bit (bitPlace .little width j)) := by
  by_cases inside : groupStart ≤ j ∧ j < groupStart + min (width - groupStart) 8
  · have group : j / 8 * 8 = groupStart := by omega
    have offset : j % 8 = j - groupStart := by omega
    have later : ¬ (groupStart + min (width - groupStart) 8 ≤ j ∧ j < width) := by omega
    have whole : groupStart ≤ j ∧ j < width := by omega
    rw [decide_eq_true inside, decide_eq_false later, decide_eq_true whole, Bool.false_and,
      Bool.or_false, bitPlace, group, offset]
  · have same : (groupStart + min (width - groupStart) 8 ≤ j ∧ j < width) =
        (groupStart ≤ j ∧ j < width) := by
      refine propext ⟨fun h => ?_, fun h => ?_⟩ <;> omega
    simp only [inside, decide_false, Bool.false_and, Bool.false_or, same]

theorem packGroups_bits (raw : Word) (width groupStart : Nat) {packed : List UInt8}
    (room : width ≤ 8 * packed.length) (aligned : groupStart % 8 = 0 ∨ width ≤ groupStart) :
    (packGroups raw width groupStart groupStart packed).length = packed.length ∧
      ∀ j, bitAt (packGroups raw width groupStart groupStart packed) j =
        (bitAt packed j || (decide (groupStart ≤ j ∧ j < width) &&
          raw.getLsbD (bitPlace .little width j))) := by
  rw [packGroups]
  by_cases more : groupStart < width
  · rw [if_pos more]
    dsimp only
    obtain ⟨place, length, bits⟩ := @writeGroup raw groupStart (min (width - groupStart) 8) packed
      groupStart (by omega)
    rw [place]
    obtain ⟨length', bits'⟩ := packGroups_bits raw width (groupStart + min (width - groupStart) 8)
      (room.trans_eq (congrArg (8 * ·) length.symm)) (by omega)
    refine ⟨length'.trans length, fun j => ?_⟩
    rw [bits' j, bits j, Bool.or_assoc, group_place more (by omega)]
  · rw [if_neg more]
    refine ⟨rfl, fun j => ?_⟩
    have none : ¬ (groupStart ≤ j ∧ j < width) := by omega
    simp [none]
termination_by width - groupStart

theorem length_packInteger (endian : Endian) (width : Nat) (raw : Word) :
    (packInteger endian width raw).length = divCeil width 8 := by
  cases endian with
  | big => exact (length_foldl_setBit _ _ _ _).trans length_replicate
  | little =>
    have room : width ≤ 8 * (List.replicate (divCeil width 8) (0 : UInt8)).length := by
      rw [length_replicate, divCeil]
      omega
    exact (packGroups_bits raw width 0 room (.inl rfl)).1.trans length_replicate

theorem bitAt_packInteger {raw : Word} (inside : j < width) :
    bitAt (packInteger endian width raw) j = raw.getLsbD (bitPlace endian width j) := by
  have room : width ≤ 8 * (List.replicate (divCeil width 8) (0 : UInt8)).length := by
    rw [length_replicate, divCeil]
    omega
  cases endian with
  | big =>
    refine (bitAt_foldl_setBit (fun i => raw.getLsbD (width - i - 1)) id _ (fun i mem => ?_)
      j).trans ?_
    · exact Nat.lt_of_lt_of_le (mem_range.mp mem) room
    · simp only [id_eq]
      rw [bitAt_zeros, Bool.false_or, any_range_eq, decide_eq_true inside, Bool.true_and,
        bitPlace, Nat.sub_right_comm]
  | little =>
    refine ((packGroups_bits raw width 0 room (.inl rfl)).2 j).trans ?_
    rw [bitAt_zeros, Bool.false_or, decide_eq_true ⟨Nat.zero_le j, inside⟩, Bool.true_and]

/-- The bits above the width are left out. -/
theorem getLsbD_masked {k : Nat} (inside : k < width) (fits : width ≤ 63) :
    (value &&& (1#64 <<< width - 1)).getLsbD k = value.getLsbD k := by
  have mask : (1#64 <<< width - 1).getLsbD k = true := by
    have power : (1#64 <<< width).toNat = 2 ^ width := by
      rw [BitVec.toNat_shiftLeft, BitVec.toNat_ofNat, Nat.one_mod, Nat.one_shiftLeft]
      exact Nat.mod_eq_of_lt (Nat.pow_lt_pow_right (by decide) (by omega))
    have ones : (1#64 <<< width - 1).toNat = 2 ^ width - 1 := by
      rw [BitVec.toNat_sub_of_le (by
        rw [BitVec.le_def, power]
        exact Nat.one_le_two_pow), power]
      rfl
    rw [BitVec.getLsbD, ones, Nat.testBit_two_pow_sub_one, decide_eq_true inside]
  rw [BitVec.getLsbD_and, mask, Bool.and_true]

theorem integerWidth_of_word {word : Word} (range : 1 ≤ width ∧ width ≤ 63)
    (same : word = BitVec.ofNat 64 width) : integerWidth word = .ok width := by
  subst same
  have toNat : (BitVec.ofNat 64 width).toNat = width := by
    rw [BitVec.toNat_ofNat]
    omega
  have toInt : ¬ (BitVec.ofNat 64 width).toInt < 0 := by
    rw [BitVec.toInt_eq_toNat_cond, toNat]
    split <;> omega
  unfold integerWidth nonnegativeUsize
  rw [if_neg toInt, toNat]
  exact if_pos range

theorem yields_encodeInteger {signed : Bool} {value word : Word} (range : 1 ≤ width ∧ width ≤ 63)
    (same : word = BitVec.ofNat 64 width) (fits : integerFits signed width value = true) :
    Yields (encodeInteger signed endian [value, word]) heap fun heap' made =>
      HasBits heap' made (integerBits endian width value) := by
  unfold encodeInteger
  refine yields_check_bind (integerWidth_of_word range same) ?_
  rw [if_neg (not_not_intro fits)]
  have length := length_packInteger endian width (value &&& (1#64 <<< width - 1))
  unfold divCeil at length
  have made := @yields_allocatePacked heap (packInteger endian width (value &&& (1#64 <<< width - 1)))
    (integerBits endian width value) (by rw [length_integerBits]; omega) (by omega) fun j inside => by
      rw [length_integerBits] at inside
      rw [bitAt_packInteger inside, getLsbD_masked (bitPlace_lt inside) range.2,
        getD_integerBits inside]
  rw [length_integerBits] at made
  exact made

/-! ## Numbers in range -/

theorem clear_above_iff {n : Nat} : (∀ k ≥ n, value.getLsbD k = false) ↔ value.toNat < 2 ^ n := by
  constructor
  · exact Nat.lt_pow_two_of_testBit _
  · intro small k above
    exact Nat.testBit_lt_two_pow (Nat.lt_of_lt_of_le small (Nat.pow_le_pow_right (by decide) above))

theorem set_above_iff {n : Nat} (fits : n ≤ 64) :
    (∀ k, n ≤ k → k < 64 → value.getLsbD k = true) ↔ 2 ^ 64 - 2 ^ n ≤ value.toNat := by
  have small : 2 ^ n ≤ 2 ^ 64 := Nat.pow_le_pow_right (by decide) fits
  have bound := value.isLt
  have complement : (~~~value).toNat = 2 ^ 64 - 1 - value.toNat := BitVec.toNat_not
  have flipped : (∀ k, n ≤ k → k < 64 → value.getLsbD k = true) ↔
      ∀ k ≥ n, (~~~value).getLsbD k = false := by
    simp only [BitVec.getLsbD_not, Bool.and_eq_false_iff, decide_eq_false_iff_not,
      Bool.not_eq_false']
    exact ⟨fun set k above => (Nat.lt_or_ge k 64).symm.imp Nat.not_lt.mpr (set k above),
      fun set k above below => (set k above).resolve_left (not_not_intro below)⟩
  rw [flipped, clear_above_iff, complement]
  omega

/-- A signed number in range repeats its sign above the width. -/
theorem integerFits_signed_iff (range : 1 ≤ width ∧ width ≤ 63) :
    integerFits true width value = true ↔
      ∀ k, width ≤ k → k < 64 → value.getLsbD k = value.getLsbD (width - 1) := by
  have small : 2 ^ (width - 1) ≤ 2 ^ 62 := Nat.pow_le_pow_right (by decide) (by omega)
  have bound := value.isLt
  have ranges : integerFits true width value = true ↔
      value.toNat < 2 ^ (width - 1) ∨ 2 ^ 64 - 2 ^ (width - 1) ≤ value.toNat := by
    rw [integerFits, if_pos rfl, decide_eq_true_iff, BitVec.toInt_eq_toNat_cond]
    have cast : ((2 : Int) ^ (width - 1)) = ((2 ^ (width - 1) : Nat) : Int) := by norm_cast
    rw [cast]
    split <;> omega
  rw [ranges, ← clear_above_iff, ← set_above_iff (by omega)]
  have last : ∀ k, width - 1 ≤ k → k = width - 1 ∨ width ≤ k := fun k above => by omega
  constructor
  · rintro (clear | set) k above below
    · rw [clear k (by omega), clear (width - 1) (Nat.le_refl _)]
    · rw [set k (by omega) below, set (width - 1) (Nat.le_refl _) (by omega)]
  · intro same
    cases sign : value.getLsbD (width - 1) with
    | false =>
      refine .inl fun k above => ?_
      rcases last k above with rfl | past
      · exact sign
      · rcases Nat.lt_or_ge k 64 with below | outside
        · rw [same k past below, sign]
        · exact BitVec.getLsbD_of_ge value k outside
    | true =>
      refine .inr fun k above below => ?_
      rcases last k above with rfl | past
      · exact sign
      · rw [same k past below, sign]

theorem integerFits_unsigned_iff (range : 1 ≤ width ∧ width ≤ 63) :
    integerFits false width value = true ↔ ∀ k ≥ width, value.getLsbD k = false := by
  have small : 2 ^ width ≤ 2 ^ 63 := Nat.pow_le_pow_right (by decide) range.2
  rw [clear_above_iff, integerFits, if_neg Bool.false_ne_true, decide_eq_true_iff,
    BitVec.toInt_eq_toNat_cond]
  constructor
  · exact fun h => h.2
  · intro below
    refine ⟨?_, below⟩
    rw [if_pos (by omega)]
    omega

theorem getLsbD_signExtended (signed : Bool) (raw : Word) (k : Nat) :
    (signExtended signed width raw).getLsbD k =
      (raw.getLsbD k || (signed && raw.getLsbD (width - 1) && decide (width ≤ k ∧ k < 64))) := by
  unfold signExtended
  cases sign : signed && raw.getLsbD (width - 1) with
  | false => rw [if_neg Bool.false_ne_true, Bool.false_and, Bool.or_false]
  | true =>
    rw [if_pos rfl, BitVec.getLsbD_or, Bool.true_and]
    congr 1
    rw [BitVec.getLsbD_shiftLeft, Bool.eq_iff_iff]
    simp only [BitVec.getLsbD_not, BitVec.getLsbD_zero, Bool.not_false, Bool.and_true,
      Bool.and_eq_true, decide_eq_true_eq, Bool.not_eq_true', decide_eq_false_iff_not]
    omega

/-- A number in range is read back from its lowest bits. -/
theorem signExtended_of_fits {signed : Bool} {value raw : Word} (range : 1 ≤ width ∧ width ≤ 63)
    (fits : integerFits signed width value = true)
    (low : ∀ k, raw.getLsbD k = (decide (k < width) && value.getLsbD k)) :
    signExtended signed width raw = value := by
  refine BitVec.eq_of_getLsbD_eq fun k below => ?_
  rw [getLsbD_signExtended, low k, low (width - 1), decide_eq_true (by omega : width - 1 < width),
    Bool.true_and]
  rcases Nat.lt_or_ge k width with inside | above
  · simp [inside, Nat.not_le.mpr inside]
  have place : width ≤ k ∧ k < 64 := ⟨above, below⟩
  rw [decide_eq_false (Nat.not_lt.mpr above), decide_eq_true place, Bool.false_and,
    Bool.false_or, Bool.and_true]
  cases signed with
  | false => rw [Bool.false_and, (integerFits_unsigned_iff range).mp fits k above]
  | true => rw [Bool.true_and, (integerFits_signed_iff range).mp fits k above below]

/-- What is read back is in range. -/
theorem integerFits_signExtended (signed : Bool) {raw : Word} (range : 1 ≤ width ∧ width ≤ 63)
    (low : ∀ k ≥ width, raw.getLsbD k = false) :
    integerFits signed width (signExtended signed width raw) = true := by
  cases signed with
  | false =>
    refine (integerFits_unsigned_iff range).mpr fun k above => ?_
    rw [getLsbD_signExtended, low k above, Bool.false_and, Bool.false_and, Bool.or_false]
  | true =>
    refine (integerFits_signed_iff range).mpr fun k above below => ?_
    have inside : ¬ (width ≤ width - 1 ∧ width - 1 < 64) := by omega
    rw [getLsbD_signExtended, getLsbD_signExtended, low k above, decide_eq_true ⟨above, below⟩,
      decide_eq_false inside]
    simp

/-! ## Reading numbers -/

theorem readGroups_eq {start : Nat}
    (inside : start + width ≤ view.bitLength) (fits : width ≤ 64) (source : Nat) (raw : Word)
    (aligned : source % 8 = 0 ∨ width ≤ source) :
    ∃ value, BinaryPattern.readGroups view start width source raw = .ok value ∧
      ∀ k < 64, value.getLsbD k = (raw.getLsbD k || (decide (source ≤ k ∧ k < width) &&
        view.bits.getD (start + bitPlace .little width k) false)) := by
  rw [BinaryPattern.readGroups]
  by_cases more : source < width
  · rw [if_pos more]
    have group : (List.range (min (width - source) 8)).foldlM
        (fun (raw : Word) index => do
          let bit ← viewBit view (start + source + index)
          pure (raw ||| bitWord 64 bit <<< (source + min (width - source) 8 - index - 1)))
        raw = .ok ((List.range (min (width - source) 8)).foldl
          (fun (raw : Word) index =>
            raw ||| bitWord 64 (view.bits.getD (start + source + index) false) <<<
              (source + min (width - source) 8 - index - 1)) raw) := by
      refine foldlM_eq_ok fun raw index mem => ?_
      have := mem_range.mp mem
      rw [viewBit_eq (by omega)]
      rfl
    obtain ⟨value, read, bits⟩ := readGroups_eq inside fits (source + min (width - source) 8)
      ((List.range (min (width - source) 8)).foldl
          (fun (raw : Word) index =>
            raw ||| bitWord 64 (view.bits.getD (start + source + index) false) <<<
              (source + min (width - source) 8 - index - 1)) raw) (by omega)
    dsimp only
    rw [group]
    refine ⟨value, read, fun k below => ?_⟩
    rw [bits k below, getLsbD_foldl_or _ _ _ _ below, Bool.or_assoc]
    congr 1
    refine Eq.trans (congrArg (· || _) ?_)
      (group_place more (by omega) fun place => view.bits.getD (start + place) false)
    rw [Bool.eq_iff_iff]
    simp only [any_eq_true, mem_range, Bool.and_eq_true, decide_eq_true_eq]
    constructor
    · rintro ⟨index, small, set, rfl⟩
      refine ⟨by omega, ?_⟩
      rw [← set]
      congr 1
      omega
    · rintro ⟨place, set⟩
      refine ⟨min (width - source) 8 - 1 - (k - source), by omega, ?_, by omega⟩
      rw [← set]
      congr 1
      omega
  · rw [if_neg more]
    refine ⟨raw, rfl, fun k _ => ?_⟩
    have none : ¬ (source ≤ k ∧ k < width) := by omega
    rw [decide_eq_false none, Bool.false_and, Bool.or_false]
termination_by width - source

theorem readInteger_eq (endian : Endian) {start : Nat}
    (inside : start + width ≤ view.bitLength) (fits : width ≤ 64) :
    ∃ raw, BinaryPattern.readInteger view endian start width = .ok raw ∧ ∀ k,
      raw.getLsbD k = (decide (k < width) &&
        view.bits.getD (start + bitPlace endian width k) false) := by
  cases endian with
  | big =>
    refine ⟨_, foldlM_eq_ok (g := fun (raw : Word) index =>
      raw <<< 1 ||| bitWord 64 (view.bits.getD (start + index) false)) ?_, ?_⟩
    · intro raw index mem
      have := mem_range.mp mem
      rw [viewBit_eq (by omega)]
      rfl
    · exact getLsbD_foldl_shift (fun index => view.bits.getD (start + index) false) fits
  | little =>
    obtain ⟨raw, read, bits⟩ := readGroups_eq inside fits 0 0 (.inl rfl)
    refine ⟨raw, read, fun k => ?_⟩
    rcases Nat.lt_or_ge k 64 with below | above
    · rw [bits k below]
      simp
    · rw [BitVec.getLsbD_of_ge raw k above, decide_eq_false (by omega : ¬ k < width),
        Bool.false_and]

/-! ## Bits at an offset -/

/-- The view has these bits at this offset. -/
structure BitsAt (view : ManagedBinaryView) (offset : Nat) (bits : List Bool) : Prop where
  inside : offset + bits.length ≤ view.bitLength
  same : (view.bits.drop offset).take bits.length = bits

section BitsAt

variable {view : ManagedBinaryView} {offset : Nat} {bits rest : List Bool}

theorem bitsAt_of_drop (h : view.bits.drop offset = bits ++ rest) (le : offset ≤ view.bitLength) :
    BitsAt view offset bits := by
  have length := congrArg List.length h
  rw [length_drop, length_append, ManagedBinaryView.length_bits] at length
  refine ⟨by omega, ?_⟩
  rw [h, take_left]

theorem BitsAt.getD (found : BitsAt view offset bits) (inside : j < bits.length) :
    view.bits.getD (offset + j) false = bits.getD j false := by
  have bit := congrArg (fun bits => bits.getD j false) found.same
  rw [← bit]
  simp [getD_eq_getElem?_getD, inside]

theorem BitsAt.left {later : List Bool} (found : BitsAt view offset (bits ++ later)) :
    BitsAt view offset bits := by
  obtain ⟨inside, same⟩ := found
  rw [length_append] at inside
  refine ⟨by omega, ?_⟩
  have part := congrArg (List.take bits.length) same
  rw [take_take, take_left, Nat.min_eq_left (by simp)] at part
  exact part

theorem BitsAt.copyBits (found : BitsAt view offset bits) :
    BinaryPattern.copyBits view offset bits.length = .ok (packBits bits) :=
  (packRange_eq found.inside).trans (by rw [found.same])

theorem BitsAt.decodeInteger {endian : Endian} {signed : Bool} {value : Word}
    (found : BitsAt view offset (integerBits endian width value))
    (range : 1 ≤ width ∧ width ≤ 63) (fits : integerFits signed width value = true) :
    BinaryPattern.decodeInteger view offset width signed endian = .ok value := by
  have inside := found.inside
  rw [length_integerBits] at inside
  obtain ⟨raw, read, low⟩ := readInteger_eq endian inside (by omega)
  unfold BinaryPattern.decodeInteger
  rw [read]
  refine congrArg Except.ok (signExtended_of_fits range fits fun k => ?_)
  rw [low k]
  rcases Nat.lt_or_ge k width with small | above
  · rw [found.getD (by rw [length_integerBits]; exact bitPlace_lt small),
      getD_integerBits (bitPlace_lt small), bitPlace_bitPlace small]
  · rw [decide_eq_false (Nat.not_lt.mpr above), Bool.false_and, Bool.false_and]

end BitsAt

end BitString

end Terlan.Managed
