/-
  Fixed-width numbers, as `to_be_bytes` and `from_be_bytes` write and read them, and the same
  bytes the other way round, as `to_le_bytes` and `from_le_bytes` do.
-/
import Mathlib.Algebra.Ring.Nat
import Mathlib.Data.List.Induction

namespace Terlan.Lib

open List

/-- The lowest `width` bytes of `n`, most significant first. -/
def beBytes : Nat → Nat → List UInt8
  | 0, _ => []
  | width + 1, n => beBytes width (n / 256) ++ [UInt8.ofNat n]

def ofBeBytes (bytes : List UInt8) : Nat := bytes.foldl (fun n byte => n * 256 + byte.toNat) 0

@[simp] theorem length_beBytes (width n : Nat) : (beBytes width n).length = width := by
  induction width generalizing n with
  | zero => rfl
  | succ width ih => simp [beBytes, ih]

theorem ofBeBytes_concat (bytes : List UInt8) (byte : UInt8) :
    ofBeBytes (bytes ++ [byte]) = ofBeBytes bytes * 256 + byte.toNat := by
  simp [ofBeBytes]

theorem ofBeBytes_beBytes {width n : Nat} (h : n < 256 ^ width) :
    ofBeBytes (beBytes width n) = n := by
  induction width generalizing n with
  | zero => simp at h; simp [beBytes, ofBeBytes, h]
  | succ width ih =>
    have high : n / 256 < 256 ^ width := by
      rw [Nat.pow_succ] at h
      exact Nat.div_lt_of_lt_mul (by rw [Nat.mul_comm]; exact h)
    have low : (UInt8.ofNat n).toNat = n % 256 := UInt8.toNat_ofNat'
    rw [beBytes, ofBeBytes_concat, ih high, low]
    omega

theorem ofBeBytes_lt (bytes : List UInt8) : ofBeBytes bytes < 256 ^ bytes.length := by
  induction bytes using List.reverseRecOn with
  | nil => simp [ofBeBytes]
  | append_singleton bytes byte ih =>
    rw [ofBeBytes_concat, length_append, length_singleton, Nat.pow_succ]
    have := byte.toNat_lt
    omega

theorem beBytes_ofBeBytes {width : Nat} {bytes : List UInt8} (h : bytes.length = width) :
    beBytes width (ofBeBytes bytes) = bytes := by
  subst h
  induction bytes using List.reverseRecOn with
  | nil => rfl
  | append_singleton bytes byte ih =>
    rw [ofBeBytes_concat, length_append, length_singleton, beBytes]
    have bound := byte.toNat_lt
    have high : (ofBeBytes bytes * 256 + byte.toNat) / 256 = ofBeBytes bytes := by omega
    have low : UInt8.ofNat (ofBeBytes bytes * 256 + byte.toNat) = byte := by
      apply UInt8.toNat_inj.mp
      rw [UInt8.toNat_ofNat']
      omega
    rw [high, low, ih]

theorem beBytes_injective {width m n : Nat} (hm : m < 256 ^ width) (hn : n < 256 ^ width)
    (h : beBytes width m = beBytes width n) : m = n := by
  rw [← ofBeBytes_beBytes hm, h, ofBeBytes_beBytes hn]

/-! ## Least significant byte first -/

def leBytes (width n : Nat) : List UInt8 := (beBytes width n).reverse

def ofLeBytes (bytes : List UInt8) : Nat := ofBeBytes bytes.reverse

@[simp] theorem length_leBytes (width n : Nat) : (leBytes width n).length = width := by
  simp [leBytes]

theorem ofLeBytes_leBytes {width n : Nat} (h : n < 256 ^ width) :
    ofLeBytes (leBytes width n) = n := by
  rw [ofLeBytes, leBytes, reverse_reverse, ofBeBytes_beBytes h]

end Terlan.Lib
