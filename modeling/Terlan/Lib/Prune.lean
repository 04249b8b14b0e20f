/-
  Removing members of a finite set, round after round, until a round rejects none, and the
  greatest set that every round agrees with.
-/
import Mathlib.Data.Finset.Card
import Mathlib.Order.Bounds.Basic

namespace Terlan.Lib

open List

variable {α : Type*} [DecidableEq α]

/-- What is left when a round rejects nothing. A round rejects members of the set it sees. -/
def prune (rejected : (proven : Finset α) → List {a // a ∈ proven}) (proven : Finset α) :
    Finset α :=
  if rejected proven = [] then proven
  else prune rejected (proven \ ((rejected proven).map Subtype.val).toFinset)
termination_by proven.card
decreasing_by
  rename_i rejects
  obtain ⟨first, mem⟩ := exists_mem_of_ne_nil _ rejects
  refine Finset.card_lt_card (Finset.ssubset_iff_subset_ne.mpr ⟨Finset.sdiff_subset, fun same => ?_⟩)
  have stays := (Finset.ext_iff.mp same first.1).mpr first.2
  exact (Finset.mem_sdiff.mp stays).2 (mem_toFinset.mpr (mem_map_of_mem mem))

section prune

variable {rejected : (proven : Finset α) → List {a // a ∈ proven}}

theorem prune_of_none {proven : Finset α} (none : rejected proven = []) :
    prune rejected proven = proven := by
  rw [prune, if_pos none]

theorem prune_of_some {proven : Finset α} (some : rejected proven ≠ []) : prune rejected proven =
      prune rejected (proven \ ((rejected proven).map Subtype.val).toFinset) := by
  rw [prune, if_neg some]

variable (rejected) in
theorem prune_subset (proven : Finset α) : prune rejected proven ⊆ proven := by
  induction proven using prune.induct rejected with
  | case1 proven none => rw [prune_of_none none]
  | case2 proven some ih => rw [prune_of_some some]; exact ih.trans Finset.sdiff_subset

variable (rejected) in
/-- The last round rejects nothing. -/
theorem rejected_prune (proven : Finset α) : rejected (prune rejected proven) = [] := by
  induction proven using prune.induct rejected with
  | case1 proven none => rw [prune_of_none none]; exact none
  | case2 proven some ih => rw [prune_of_some some]; exact ih

/-- A set whose members no round rejects survives every round. -/
theorem subset_prune {kept proven : Finset α} (subset : kept ⊆ proven)
    (spared : ∀ current : Finset α, kept ⊆ current → ∀ a ∈ rejected current, a.1 ∉ kept) :
    kept ⊆ prune rejected proven := by
  induction proven using prune.induct rejected with
  | case1 proven none => rw [prune_of_none none]; exact subset
  | case2 proven some ih =>
    rw [prune_of_some some]
    refine ih fun a mem => Finset.mem_sdiff.mpr ⟨subset mem, fun gone => ?_⟩
    obtain ⟨b, rejects, rfl⟩ := mem_map.mp (mem_toFinset.mp gone)
    exact spared proven subset b rejects mem

/-- Rejection by a condition that more members can only help to meet: what is left is the
greatest set of members that all meet the condition there. -/
theorem prune_isGreatest {meets : Finset α → α → Prop}
    (monotone : ∀ {s t : Finset α} {a : α}, s ⊆ t → meets s a → meets t a)
    (rejects : ∀ (current : Finset α) (a : α),
      a ∈ (rejected current).map Subtype.val ↔ a ∈ current ∧ ¬ meets current a)
    (proven : Finset α) :
    IsGreatest {s : Finset α | s ⊆ proven ∧ ∀ a ∈ s, meets s a} (prune rejected proven) := by
  constructor
  · refine ⟨prune_subset rejected proven, fun a mem => ?_⟩
    by_contra fails
    have rejecting := (rejects (prune rejected proven) a).mpr ⟨mem, fails⟩
    rw [rejected_prune rejected] at rejecting
    exact not_mem_nil rejecting
  · intro kept ⟨subset, all⟩
    refine subset_prune subset fun current within a mem inKept => ?_
    exact ((rejects current a.1).mp (mem_map_of_mem mem)).2 (monotone within (all a.1 inKept))

end prune

end Terlan.Lib
