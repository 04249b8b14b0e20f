/-
  Arithmetic of unsigned machine words that does not wrap around: `saturating_add` stops at
  the largest word, the checked operations give up there.
-/
import Mathlib.Algebra.Ring.Nat

namespace Terlan.Lib

/-- `u64::MAX`. -/
def u64Max : Nat := 2 ^ 64 - 1

def saturatingAdd (a b : UInt64) : UInt64 := UInt64.ofNat (min (a.toNat + b.toNat) u64Max)

def saturatingMul (a b : UInt64) : UInt64 := UInt64.ofNat (min (a.toNat * b.toNat) u64Max)

def checkedAdd (a b : UInt64) : Option UInt64 :=
  if a.toNat + b.toNat ≤ u64Max then some (a + b) else none

def checkedMul (a b : UInt64) : Option UInt64 :=
  if a.toNat * b.toNat ≤ u64Max then some (a * b) else none

theorem saturatingAdd_toNat (a b : UInt64) :
    (saturatingAdd a b).toNat = min (a.toNat + b.toNat) u64Max := by
  have bound : min (a.toNat + b.toNat) u64Max < 2 ^ 64 := by unfold u64Max; omega
  unfold saturatingAdd
  rw [UInt64.toNat_ofNat', Nat.mod_eq_of_lt bound]

theorem checkedAdd_eq_some_iff {a b c : UInt64} :
    checkedAdd a b = some c ↔ c.toNat = a.toNat + b.toNat := by
  have bound := c.toNat_lt
  unfold checkedAdd u64Max
  by_cases fits : a.toNat + b.toNat ≤ 2 ^ 64 - 1
  · have sum : (a + b).toNat = a.toNat + b.toNat := by
      rw [UInt64.toNat_add, Nat.mod_eq_of_lt (by omega)]
    rw [if_pos fits, Option.some_inj, ← UInt64.toNat_inj, sum]
    exact eq_comm
  · rw [if_neg fits]
    exact iff_of_false (by simp) (by omega)

theorem checkedMul_eq_some_iff {a b c : UInt64} :
    checkedMul a b = some c ↔ c.toNat = a.toNat * b.toNat := by
  have bound := c.toNat_lt
  unfold checkedMul u64Max
  by_cases fits : a.toNat * b.toNat ≤ 2 ^ 64 - 1
  · have product : (a * b).toNat = a.toNat * b.toNat := by
      rw [UInt64.toNat_mul, Nat.mod_eq_of_lt (by omega)]
    rw [if_pos fits, Option.some_inj, ← UInt64.toNat_inj, product]
    exact eq_comm
  · rw [if_neg fits]
    exact iff_of_false (by simp) (by omega)

end Terlan.Lib
