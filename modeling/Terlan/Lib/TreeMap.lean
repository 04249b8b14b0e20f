/-
  Ordered maps. A Rust `BTreeMap` is `Std.ExtTreeMap` under `compare`: iteration is in
  key order, and two maps with the same lookups are equal. The lemmas here are the
  lookup laws in the form the proofs use, with `k = a` for `compare k a = .eq`, and the
  order of a key type that wraps an ordered one.
-/
import Mathlib.Algebra.Ring.Nat
import Std.Data.ExtTreeSet

namespace Terlan.Lib

open Std (ExtTreeMap ExtTreeSet TransOrd LawfulEqOrd LawfulEqCmp)

/-- Keys compared through an injective function are equal when they compare equal. -/
theorem lawfulEqCmp_compareOn {α κ : Type*} [Ord κ] [LawfulEqOrd κ] {f : α → κ}
    (hf : ∀ a b, f a = f b → a = b) : LawfulEqCmp (compareOn f) where
  compare_self := Std.compare_eq_iff_eq.mpr rfl
  eq_of_compare h := hf _ _ (Std.compare_eq_iff_eq.mp h)

variable {κ : Type*} {ν : Type*} [Ord κ] [TransOrd κ]

theorem getElem?_insert_self_eq (m : ExtTreeMap κ ν) (k : κ) (v : ν) :
    (m.insert k v)[k]? = some v :=
  ExtTreeMap.getElem?_insert_self

variable [LawfulEqOrd κ]

theorem getElem?_insert_eq [DecidableEq κ] (m : ExtTreeMap κ ν) (k a : κ) (v : ν) :
    (m.insert k v)[a]? = if k = a then some v else m[a]? := by
  rw [ExtTreeMap.getElem?_insert]
  simp only [Std.compare_eq_iff_eq]

theorem getElem?_insert_of_ne (m : ExtTreeMap κ ν) {k a : κ} (v : ν) (h : k ≠ a) :
    (m.insert k v)[a]? = m[a]? := by
  rw [ExtTreeMap.getElem?_insert, if_neg]
  simpa [Std.compare_eq_iff_eq] using h

theorem getElem?_erase_eq [DecidableEq κ] (m : ExtTreeMap κ ν) (k a : κ) :
    (m.erase k)[a]? = if k = a then none else m[a]? := by
  rw [ExtTreeMap.getElem?_erase]
  simp only [Std.compare_eq_iff_eq]

variable (m : ExtTreeMap κ ν)

theorem mem_insert_iff (k a : κ) (v : ν) : a ∈ m.insert k v ↔ k = a ∨ a ∈ m := by
  rw [ExtTreeMap.mem_insert, Std.compare_eq_iff_eq]

theorem mem_erase_iff (k a : κ) : a ∈ m.erase k ↔ k ≠ a ∧ a ∈ m := by
  rw [ExtTreeMap.mem_erase, Ne, Std.compare_eq_iff_eq]

variable (s : ExtTreeSet κ)

theorem mem_set_insert_iff (k a : κ) : a ∈ s.insert k ↔ k = a ∨ a ∈ s := by
  rw [ExtTreeSet.mem_insert, Std.compare_eq_iff_eq]

theorem mem_set_erase_iff (k a : κ) : a ∈ s.erase k ↔ k ≠ a ∧ a ∈ s := by
  rw [ExtTreeSet.mem_erase, Ne, Std.compare_eq_iff_eq]

theorem mem_set_filter_iff (f : κ → Bool) (a : κ) : a ∈ s.filter f ↔ a ∈ s ∧ f a = true := by
  rw [← ExtTreeSet.mem_toList, ExtTreeSet.toList_filter, List.mem_filter, ExtTreeSet.mem_toList]

theorem getElem?_filter_eq_some_iff (m : ExtTreeMap κ ν) (f : κ → ν → Bool) (a : κ) (v : ν) :
    (m.filter f)[a]? = some v ↔ m[a]? = some v ∧ f a v = true := by
  rw [ExtTreeMap.getElem?_filter', Option.filter_eq_some_iff]

/-- Writing back what is stored changes nothing. -/
theorem insert_getElem?_eq (m : ExtTreeMap κ ν) {k : κ} {v : ν} (h : m[k]? = some v) :
    m.insert k v = m := by
  classical
  apply ExtTreeMap.ext_getElem?
  intro a
  rw [getElem?_insert_eq]
  split
  next heq => rw [← heq, h]
  next => rfl

theorem insert_erase_eq (k : κ) (v : ν) : (m.erase k).insert k v = m.insert k v := by
  classical
  apply ExtTreeMap.ext_getElem?
  intro a
  rw [getElem?_insert_eq, getElem?_insert_eq, getElem?_erase_eq]
  split
  next => rfl
  next => rfl

/-- `BTreeMap::values`, in key order. -/
def valuesOf (m : ExtTreeMap κ ν) : List ν := m.toList.map Prod.snd

theorem mem_valuesOf {m : ExtTreeMap κ ν} {v : ν} : v ∈ valuesOf m ↔ ∃ k : κ, m[k]? = some v := by
  simp only [valuesOf, List.mem_map, Prod.exists, exists_eq_right,
    ExtTreeMap.mem_toList_iff_getElem?_eq_some]

/-- What `remove` on each of several keys leaves. -/
theorem getElem?_foldl_erase [DecidableEq κ] (m : ExtTreeMap κ ν) (keys : List κ) (a : κ) :
    (keys.foldl (fun m k => m.erase k) m)[a]? = if a ∈ keys then none else m[a]? := by
  induction keys generalizing m with
  | nil => simp
  | cons k keys ih =>
    rw [List.foldl_cons, ih, getElem?_erase_eq]
    by_cases own : k = a
    · simp [own]
    by_cases listed : a ∈ keys
    · simp [listed]
    · have other : ¬ a = k := fun h => own h.symm
      simp [own, other, listed]

end Terlan.Lib
