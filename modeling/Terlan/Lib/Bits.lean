/-
  Bits in bytes, the most significant bit of the first byte first, and the loops that set them
  one by one.
-/
import Mathlib.Data.Nat.Bitwise

namespace Terlan.Lib

open List

/-- `bytes[index / 8] & (1 << (7 - index % 8)) != 0`; there is no bit past the end. -/
def bitAt (bytes : List UInt8) (index : Nat) : Bool :=
  (bytes.getD (index / 8) 0).toNat.testBit (7 - index % 8)

/-- `bytes[index / 8] |= 1 << (7 - index % 8)`. -/
def setBit (bytes : List UInt8) (index : Nat) : List UInt8 :=
  bytes.modify (index / 8) (· ||| UInt8.ofNat (2 ^ (7 - index % 8)))

@[simp] theorem length_setBit (bytes : List UInt8) (index : Nat) :
    (setBit bytes index).length = bytes.length := by
  simp [setBit]

variable {bytes : List UInt8}

theorem bitAt_past {index : Nat} (past : 8 * bytes.length ≤ index) : bitAt bytes index = false := by
  have outside : bytes.length ≤ index / 8 := by omega
  rw [bitAt, getD_eq_default _ _ outside]
  simp

theorem testBit_or_pow {byte : UInt8} {i j : Nat} (small : i < 8) :
    (byte ||| UInt8.ofNat (2 ^ i)).toNat.testBit j = (byte.toNat.testBit j || decide (i = j)) := by
  have bound : 2 ^ i < 256 := Nat.pow_lt_pow_right (by decide : 1 < 2) small
  rw [UInt8.toNat_or, Nat.testBit_or, UInt8.toNat_ofNat_of_lt' bound, Nat.testBit_two_pow]

theorem bitAt_setBit {index : Nat} (inside : index < 8 * bytes.length)
    (j : Nat) : bitAt (setBit bytes index) j = (bitAt bytes j || decide (index = j)) := by
  have listed : index / 8 < bytes.length := by omega
  unfold bitAt setBit
  simp only [getD_eq_getElem?_getD, getElem?_modify]
  by_cases same : index / 8 = j / 8
  · rw [← same, getElem?_eq_getElem listed]
    simp only [if_true, Option.map_eq_map, Option.map_some, Option.getD_some]
    rw [testBit_or_pow (by omega)]
    congr 1
    simp only [decide_eq_decide]
    omega
  · have other : index ≠ j := by
      intro eq
      exact same (by rw [eq])
    simp [same, other]

/-- Setting the bits that a loop selects. -/
theorem bitAt_foldl_setBit {α : Type} (chosen : α → Bool) (place : α → Nat) (xs : List α)
    (inside : ∀ x ∈ xs, place x < 8 * bytes.length) (j : Nat) :
    bitAt (xs.foldl (fun out x => if chosen x then setBit out (place x) else out) bytes) j =
      (bitAt bytes j || xs.any fun x => chosen x && decide (place x = j)) := by
  induction xs generalizing bytes with
  | nil => simp
  | cons x xs ih =>
    rw [foldl_cons, ih, any_cons]
    · cases chosen x with
      | false => simp
      | true => simp [bitAt_setBit (inside x mem_cons_self), Bool.or_assoc]
    · intro y mem
      have := inside y (mem_cons_of_mem _ mem)
      split <;> simpa using this

theorem length_foldl_setBit {α : Type} (chosen : α → Bool) (place : α → Nat) (xs : List α)
    (bytes : List UInt8) :
    (xs.foldl (fun out x => if chosen x then setBit out (place x) else out) bytes).length =
      bytes.length := by
  induction xs generalizing bytes with
  | nil => rfl
  | cons x xs ih =>
    rw [foldl_cons, ih]
    split <;> simp

/-! ## Bytes and their bits -/

def bitsOf (bytes : List UInt8) : List Bool := (List.range (8 * bytes.length)).map (bitAt bytes)

@[simp] theorem length_bitsOf (bytes : List UInt8) : (bitsOf bytes).length = 8 * bytes.length := by
  simp [bitsOf]

theorem getD_bitsOf (bytes : List UInt8) (j : Nat) : (bitsOf bytes).getD j false = bitAt bytes j := by
  rcases Nat.lt_or_ge j (8 * bytes.length) with inside | past
  · rw [getD_eq_getElem _ _ (by simpa using inside)]
    simp [bitsOf]
  · rw [getD_eq_default _ _ (by simpa using past), bitAt_past past]

theorem bitsOf_cons (byte : UInt8) (bytes : List UInt8) :
    bitsOf (byte :: bytes) = bitsOf [byte] ++ bitsOf bytes := by
  have split : 8 * (byte :: bytes).length = 8 + 8 * bytes.length := by
    rw [length_cons]
    omega
  unfold bitsOf
  rw [split, range_add, map_append, map_map]
  refine congrArg₂ (· ++ ·) ?_ ?_
  · refine map_congr_left fun j mem => ?_
    have small : j < 8 := mem_range.mp mem
    simp [bitAt, show j / 8 = 0 by omega]
  · refine map_congr_left fun j _ => ?_
    simp [bitAt, show (8 + j) / 8 = j / 8 + 1 by omega, show (8 + j) % 8 = j % 8 by omega]

theorem bitsOf_append (left right : List UInt8) :
    bitsOf (left ++ right) = bitsOf left ++ bitsOf right := by
  induction left with
  | nil => simp [bitsOf]
  | cons byte left ih => rw [cons_append, bitsOf_cons, ih, ← append_assoc, ← bitsOf_cons]

/-- Bytes are determined by their bits. -/
theorem bytes_ext {left right : List UInt8} (length : left.length = right.length)
    (same : ∀ j, bitAt left j = bitAt right j) : left = right := by
  refine ext_getElem length fun i inside inside' => ?_
  apply UInt8.toNat_inj.mp
  refine Nat.eq_of_testBit_eq fun k => ?_
  rcases Nat.lt_or_ge k 8 with small | large
  · have := same (8 * i + (7 - k))
    simp only [bitAt, show (8 * i + (7 - k)) / 8 = i by omega,
      show 7 - (8 * i + (7 - k)) % 8 = k by omega, getD_eq_getElem _ _ inside,
      getD_eq_getElem _ _ inside'] at this
    exact this
  · have high : ∀ byte : UInt8, byte.toNat.testBit k = false := fun byte =>
      Nat.testBit_lt_two_pow (Nat.lt_of_lt_of_le byte.toNat_lt
        (Nat.pow_le_pow_right (by decide : 0 < 2) large))
    rw [high, high]

/-- The bits in as few bytes as hold them, the rest of the last byte zero. -/
def packBits (bits : List Bool) : List UInt8 :=
  (List.range bits.length).foldl
    (fun out index => if bits.getD index false then setBit out index else out)
    (List.replicate ((bits.length + 7) / 8) 0)

@[simp] theorem length_packBits (bits : List Bool) :
    (packBits bits).length = (bits.length + 7) / 8 := by
  simp [packBits, length_foldl_setBit]

theorem bitAt_zeros (n j : Nat) : bitAt (List.replicate n 0) j = false := by
  unfold bitAt
  rw [getD_eq_getElem?_getD, getElem?_replicate]
  split <;> simp

theorem any_range_eq {n j : Nat} (p : Nat → Bool) :
    ((List.range n).any fun i => p i && decide (i = j)) = (decide (j < n) && p j) := by
  rw [Bool.eq_iff_iff]
  simp only [any_eq_true, mem_range, Bool.and_eq_true, decide_eq_true_eq]
  constructor
  · rintro ⟨i, small, chosen, rfl⟩
    exact ⟨small, chosen⟩
  · rintro ⟨small, chosen⟩
    exact ⟨j, small, chosen, rfl⟩

theorem bitAt_packBits (bits : List Bool) (j : Nat) :
    bitAt (packBits bits) j = bits.getD j false := by
  unfold packBits
  rw [bitAt_foldl_setBit _ _ _ fun index mem => by
    have := mem_range.mp mem
    simp only [length_replicate]
    omega]
  rw [bitAt_zeros, Bool.false_or, any_range_eq]
  rcases Nat.lt_or_ge j bits.length with inside | past
  · simp [inside]
  · simp [Nat.not_lt.mpr past]

theorem packBits_bitsOf (bytes : List UInt8) : packBits (bitsOf bytes) = bytes := by
  refine bytes_ext (by simp; omega) fun j => ?_
  rw [bitAt_packBits, getD_bitsOf]

/-- Whole bytes are packed without padding. -/
theorem bitsOf_packBits {bits : List Bool} (whole : 8 ∣ bits.length) :
    bitsOf (packBits bits) = bits := by
  obtain ⟨n, length⟩ := whole
  have same : (bitsOf (packBits bits)).length = bits.length := by
    rw [length_bitsOf, length_packBits]
    omega
  refine ext_getElem same fun j inside inside' => ?_
  rw [← getD_eq_getElem _ false inside, ← getD_eq_getElem _ false inside', getD_bitsOf,
    bitAt_packBits]

/-! ## Words -/

section Words

variable {w : Nat}

/-- `u64::from(bit)`. -/
def bitWord (w : Nat) (bit : Bool) : BitVec w := (BitVec.ofBool bit).setWidth w

theorem getLsbD_bitWord_shiftLeft {bit : Bool} {place k : Nat} (small : k < w) :
    (bitWord w bit <<< place).getLsbD k = (bit && decide (place = k)) := by
  unfold bitWord
  rw [BitVec.getLsbD_shiftLeft, BitVec.getLsbD_setWidth, BitVec.getLsbD_ofBool, Bool.eq_iff_iff]
  simp only [Bool.and_eq_true, decide_eq_true_eq, Bool.not_eq_true', decide_eq_false_iff_not]
  constructor
  · rintro ⟨⟨_, _⟩, _, zero, set⟩
    exact ⟨set, by omega⟩
  · rintro ⟨set, rfl⟩
    exact ⟨⟨small, by omega⟩, by omega, by omega, set⟩

/-- Or-ing in the bits of a loop, each at its own place. -/
theorem getLsbD_foldl_or {α : Type} (chosen : α → Bool) (place : α → Nat) (xs : List α)
    (raw : BitVec w) {k : Nat} (small : k < w) :
    (xs.foldl (fun raw x => raw ||| bitWord w (chosen x) <<< place x) raw).getLsbD k =
      (raw.getLsbD k || xs.any fun x => chosen x && decide (place x = k)) := by
  induction xs generalizing raw with
  | nil => simp
  | cons x xs ih =>
    rw [foldl_cons, ih, BitVec.getLsbD_or, getLsbD_bitWord_shiftLeft small, any_cons,
      Bool.or_assoc]

/-- Shifting in the bits of a loop, the first one highest. -/
theorem getLsbD_foldl_shift (bit : Nat → Bool) {n : Nat} (fits : n ≤ w) (k : Nat) :
    ((List.range n).foldl (fun (raw : BitVec w) index => raw <<< 1 ||| bitWord w (bit index))
      0#w).getLsbD k = (decide (k < n) && bit (n - 1 - k)) := by
  induction n generalizing k with
  | zero => simp
  | succ n ih =>
    rw [range_succ, foldl_append, foldl_cons, foldl_nil, BitVec.getLsbD_or,
      BitVec.getLsbD_shiftLeft, ih (by omega)]
    have low : (bitWord w (bit n)).getLsbD k = (bit n && decide (k = 0)) := by
      rw [Bool.eq_iff_iff]
      simp only [bitWord, BitVec.getLsbD_setWidth, BitVec.getLsbD_ofBool, Bool.and_eq_true,
        decide_eq_true_eq]
      constructor
      · rintro ⟨_, zero, set⟩
        exact ⟨set, zero⟩
      · rintro ⟨set, zero⟩
        exact ⟨by omega, zero, set⟩
    rw [low]
    cases k with
    | zero => simp
    | succ k =>
      have place : n + 1 - 1 - (k + 1) = n - 1 - k := by omega
      rw [place]
      rcases Nat.lt_or_ge k n with inside | past
      · simp [inside, show k + 1 < w by omega]
      · simp [Nat.not_lt.mpr past]

end Words

end Terlan.Lib
