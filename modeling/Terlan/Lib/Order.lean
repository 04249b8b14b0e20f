/-
  Maxima of lists. `List.argmax` keeps the first of several maximal elements, which is what
  a register does that only gives way to a strictly greater rank. When equal ranks mean equal
  elements the maximum does not depend on the order or the repetition of the list.

  `maxByKey` is `Iterator::max_by_key`, which keeps the last of several maximal elements: it is
  the same for every order of the list exactly when there is one maximal element.
-/
import Mathlib.Data.List.MinMax

namespace Terlan.Lib

open List

variable {α β : Type*} [LinearOrder β]

variable {l l' : List α}

theorem argmax_congr {f : α → β} (same : ∀ a, a ∈ l ↔ a ∈ l')
    (inj : ∀ a ∈ l, ∀ b ∈ l, f a = f b → a = b) : l.argmax f = l'.argmax f := by
  cases h : l.argmax f with
  | none =>
    obtain rfl := argmax_eq_none.mp h
    have empty : l' = [] := eq_nil_iff_forall_not_mem.mpr fun a ha => by
      simpa using (same a).mpr ha
    rw [empty, argmax_nil]
  | some m =>
    have hm : m ∈ l := argmax_mem h
    cases h' : l'.argmax f with
    | none =>
      rw [argmax_eq_none.mp h'] at same
      simpa using (same m).mp hm
    | some m' =>
      have hm' : m' ∈ l := (same m').mpr (argmax_mem h')
      have above := le_of_mem_argmax hm' h
      have below := le_of_mem_argmax ((same m).mp hm) h'
      rw [inj m hm m' hm' (le_antisymm below above)]

/-- A register that holds `first` at the start depends on its later values only through
their own maximum. -/
theorem argmax_register {f : α → β} (first : Option α) (h : l.argmax f = l'.argmax f) :
    (first.toList ++ l).argmax f = (first.toList ++ l').argmax f := by
  cases first with
  | none => exact h
  | some a =>
    change (a :: l).argmax f = (a :: l').argmax f
    rw [argmax_cons, argmax_cons, h]

variable {m : α}

/-- The register law: the first value stays, or one strictly above it holds. -/
theorem argmax_first {f : α → β} {first : α} {l : List α}
    (h : (first :: l).argmax f = some m) : m = first ∨ f first < f m := by
  rw [argmax_cons] at h
  cases hl : l.argmax f with
  | none => rw [hl] at h; exact .inl (by simpa using h.symm)
  | some c =>
    rw [hl] at h
    dsimp only at h
    split at h
    next above => cases h; exact .inr above
    next => cases h; exact .inl rfl

/-! ## The last of several maxima -/

/-- `iter.max_by_key(key)`. -/
def maxByKey (key : α → β) : List α → Option α
  | [] => none
  | a :: as => some (as.foldl (fun best x => if key x < key best then best else x) a)

/-- A member that no member is above. -/
def IsTop (key : α → β) (l : List α) (m : α) : Prop := m ∈ l ∧ ∀ x ∈ l, key x ≤ key m

theorem maxByKey_concat (key : α → β) (l : List α) (x : α) :
    maxByKey key (l ++ [x]) =
      match maxByKey key l with
      | none => some x
      | some best => some (if key x < key best then best else x) := by
  cases l with
  | nil => rfl
  | cons a as => simp [maxByKey, foldl_append]

variable {key : α → β}

theorem maxByKey_eq_none_iff {l : List α} : maxByKey key l = none ↔ l = [] := by
  cases l <;> simp [maxByKey]

/-- The maximum is not below what stands before it, and above what stands behind it. -/
theorem maxByKey_split {l : List α} (h : maxByKey key l = some m) :
    ∃ front back, l = front ++ m :: back ∧ (∀ x ∈ front, key x ≤ key m) ∧
      ∀ x ∈ back, key x < key m := by
  induction l using List.reverseRecOn generalizing m with
  | nil => cases h
  | append_singleton l x ih =>
    rw [maxByKey_concat] at h
    cases before : maxByKey key l with
    | none =>
      rw [before] at h
      cases h
      rw [maxByKey_eq_none_iff.mp before]
      exact ⟨[], [], rfl, by simp, by simp⟩
    | some best =>
      rw [before] at h
      dsimp only at h
      obtain ⟨front, back, rfl, below, above⟩ := ih before
      by_cases less : key x < key best
      · rw [if_pos less] at h
        cases h
        refine ⟨front, back ++ [x], by simp, below, fun y mem => ?_⟩
        rcases mem_append.mp mem with mem | mem
        · exact above y mem
        · rw [mem_singleton.mp mem]
          exact less
      · rw [if_neg less] at h
        cases h
        have atLeast : key best ≤ key x := not_lt.mp less
        refine ⟨front ++ best :: back, [], by simp, fun y mem => ?_, by simp⟩
        rcases mem_append.mp mem with mem | mem
        · exact (below y mem).trans atLeast
        · rcases mem_cons.mp mem with rfl | mem
          · exact atLeast
          · exact (above y mem).le.trans atLeast

theorem isTop_of_maxByKey {l : List α} (h : maxByKey key l = some m) : IsTop key l m := by
  obtain ⟨front, back, rfl, below, above⟩ := maxByKey_split h
  refine ⟨by simp, fun x mem => ?_⟩
  rcases mem_append.mp mem with mem | mem
  · exact below x mem
  · rcases mem_cons.mp mem with rfl | mem
    · exact le_rfl
    · exact (above x mem).le

/-- A top at the end of the list is the maximum. -/
theorem maxByKey_concat_top {l : List α} (top : IsTop key (l ++ [m]) m) :
    maxByKey key (l ++ [m]) = some m := by
  rw [maxByKey_concat]
  cases before : maxByKey key l with
  | none => rfl
  | some best =>
    have listed := (isTop_of_maxByKey before).1
    have below := top.2 best (mem_append_left _ listed)
    dsimp only
    rw [if_neg (not_lt.mpr below)]

theorem isTop_perm (same : l.Perm l') : IsTop key l m ↔ IsTop key l' m := by
  unfold IsTop
  simp only [same.mem_iff]

theorem maxByKey_perm (same : l.Perm l') (unique : ∀ a b, IsTop key l a → IsTop key l b → a = b) :
    maxByKey key l = maxByKey key l' := by
  cases max : maxByKey key l with
  | none =>
    rw [maxByKey_eq_none_iff.mp max] at same
    rw [← same.nil_eq]
    rfl
  | some m =>
    cases max' : maxByKey key l' with
    | none =>
      rw [maxByKey_eq_none_iff.mp max'] at same
      rw [same.eq_nil] at max
      cases max
    | some m' =>
      rw [unique m m' (isTop_of_maxByKey max) ((isTop_perm same).mpr (isTop_of_maxByKey max'))]

end Terlan.Lib
