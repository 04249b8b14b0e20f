/-
  Forests: the children of each node, walked parent first to a given depth.

  * `preorder_isSome`: a walk deeper than the ranks below its root comes to its end;
  * `mem_preorder`: it visits what is below its root, and
  * `nodup_preorder`: each node once.
-/
import Mathlib.Data.List.Nodup
import Mathlib.Logic.Relation

namespace Terlan.Lib

open List
open Relation (ReflTransGen)

variable {ι : Type*}

/-- Walks in a row. -/
def walks (walk : ι → Option (List ι)) : List ι → Option (List ι)
  | [] => some []
  | id :: rest =>
    match walk id, walks walk rest with
    | some front, some back => some (front ++ back)
    | _, _ => none

/-- A node, and then what is below it. -/
def preorder (below : ι → List ι) : Nat → ι → Option (List ι)
  | 0, _ => none
  | depth + 1, id => (walks (preorder below depth) (below id)).map (id :: ·)

/-- The second node is one of the children of the first, or below one of them. -/
abbrev Under (below : ι → List ι) : ι → ι → Prop := ReflTransGen fun i j => j ∈ below i

/-- Each node has one parent, of a smaller rank. -/
structure Forest (below : ι → List ι) (rank : ι → Nat) : Prop where
  distinct : ∀ i, (below i).Nodup
  parent : ∀ i i' j, j ∈ below i → j ∈ below i' → i = i'
  rises : ∀ i j, j ∈ below i → rank i < rank j

variable {below : ι → List ι} {rank : ι → Nat} {walk : ι → Option (List ι)}

variable {id : ι}

theorem walks_cons_eq_some {rest l : List ι} : walks walk (id :: rest) = some l ↔
      ∃ front back, walk id = some front ∧ walks walk rest = some back ∧ l = front ++ back := by
  rw [walks]
  constructor
  · intro h
    split at h
    next front back first others =>
      cases h
      exact ⟨front, back, first, others, rfl⟩
    next => cases h
  · rintro ⟨front, back, first, others, rfl⟩
    rw [first, others]

theorem preorder_succ_eq_some {depth : Nat} {l : List ι} : preorder below (depth + 1) id = some l ↔
      ∃ rest, walks (preorder below depth) (below id) = some rest ∧ l = id :: rest := by
  rw [preorder, Option.map_eq_some_iff]
  exact exists_congr fun rest => and_congr_right fun _ => eq_comm

theorem walks_isSome {ids : List ι} (each : ∀ id ∈ ids, ∃ l, walk id = some l) :
    ∃ l, walks walk ids = some l := by
  induction ids with
  | nil => exact ⟨[], rfl⟩
  | cons id rest ih =>
    obtain ⟨front, first⟩ := each id mem_cons_self
    obtain ⟨back, others⟩ := ih fun other member => each other (mem_cons_of_mem _ member)
    exact ⟨front ++ back, walks_cons_eq_some.mpr ⟨front, back, first, others, rfl⟩⟩

variable {ids l : List ι}

theorem walks_each (h : walks walk ids = some l) (member : id ∈ ids) :
    ∃ front, walk id = some front := by
  induction ids generalizing l with
  | nil => cases member
  | cons other rest ih =>
    obtain ⟨front, back, first, others, rfl⟩ := walks_cons_eq_some.mp h
    rcases mem_cons.mp member with rfl | later
    · exact ⟨front, first⟩
    · exact ih others later

theorem mem_walks (h : walks walk ids = some l) {x : ι} :
    x ∈ l ↔ ∃ id ∈ ids, ∃ front, walk id = some front ∧ x ∈ front := by
  induction ids generalizing l with
  | nil =>
    cases h
    simp
  | cons id rest ih =>
    obtain ⟨front, back, first, others, rfl⟩ := walks_cons_eq_some.mp h
    rw [mem_append, ih others, exists_mem_cons_iff, first]
    simp

theorem walks_congr {walk' : ι → Option (List ι)}
    (same : ∀ id ∈ ids, ∀ l, walk id = some l → walk' id = some l)
    (h : walks walk ids = some l) : walks walk' ids = some l := by
  induction ids generalizing l with
  | nil => exact h
  | cons id rest ih =>
    obtain ⟨front, back, first, others, rfl⟩ := walks_cons_eq_some.mp h
    exact walks_cons_eq_some.mpr ⟨front, back, same id mem_cons_self front first,
      ih (fun other member => same other (mem_cons_of_mem _ member)) others, rfl⟩

/-- A deeper walk is the same walk. -/
theorem preorder_deeper {depth depth' : Nat} (le : depth ≤ depth') {l : List ι}
    (h : preorder below depth id = some l) : preorder below depth' id = some l := by
  induction depth generalizing depth' id l with
  | zero => cases h
  | succ depth ih =>
    obtain ⟨deeper, rfl⟩ : ∃ d, depth' = d + 1 := ⟨depth' - 1, by omega⟩
    obtain ⟨rest, others, rfl⟩ := preorder_succ_eq_some.mp h
    refine preorder_succ_eq_some.mpr ⟨rest, walks_congr (fun j _ l found => ?_) others, rfl⟩
    exact ih (by omega) found

theorem mem_preorder {depth : Nat} {l : List ι} (h : preorder below depth id = some l)
    {x : ι} : x ∈ l ↔ Under below id x := by
  induction depth generalizing id l with
  | zero => cases h
  | succ depth ih =>
    obtain ⟨rest, others, rfl⟩ := preorder_succ_eq_some.mp h
    rw [mem_cons, mem_walks others]
    constructor
    · rintro (rfl | ⟨j, child, front, found, member⟩)
      · exact .refl
      · exact .head child ((ih found).mp member)
    · intro under
      rcases under.cases_head with rfl | ⟨j, child, deeper⟩
      · exact .inl rfl
      · obtain ⟨front, found⟩ := walks_each others child
        exact .inr ⟨j, child, front, found, (ih found).mpr deeper⟩

namespace Forest

variable (forest : Forest below rank)
include forest

theorem rank_le {i x : ι} (under : Under below i x) : rank i ≤ rank x := by
  induction under with
  | refl => exact Nat.le_refl _
  | tail _ child ih => exact Nat.le_trans ih (Nat.le_of_lt (forest.rises _ _ child))

/-- Nothing is below two children of one node. -/
theorem siblings {p a b x : ι} (left : a ∈ below p) (right : b ∈ below p) (ne : a ≠ b)
    (underLeft : Under below a x) (underRight : Under below b x) : False := by
  have apart : ∀ {a b : ι}, a ∈ below p → b ∈ below p → a ≠ b → ¬ Under below a b := by
    intro a b left right ne under
    rcases under.cases_tail with rfl | ⟨q, upper, child⟩
    · exact ne rfl
    · cases forest.parent q p b child right
      exact absurd (forest.rank_le upper) (Nat.not_le.mpr (forest.rises p a left))
  have unique : Relator.RightUnique (Function.swap fun i j => j ∈ below i) :=
    fun j i i' child child' => forest.parent i i' j child child'
  rcases Relation.ReflTransGen.total_of_right_unique unique
    (Relation.reflTransGen_swap.mpr underLeft) (Relation.reflTransGen_swap.mpr underRight) with
    up | up
  · exact apart right left ne.symm (Relation.reflTransGen_swap.mp up)
  · exact apart left right ne (Relation.reflTransGen_swap.mp up)

/-- Walks of different children of one node. -/
theorem nodup_walks {depth : Nat} {p : ι} {ids l : List ι} (children : ∀ id ∈ ids, id ∈ below p)
    (distinct : ids.Nodup) (each : ∀ id l, preorder below depth id = some l → l.Nodup)
    (h : walks (preorder below depth) ids = some l) : l.Nodup := by
  induction ids generalizing l with
  | nil =>
    cases h
    exact .nil
  | cons id rest ih =>
    obtain ⟨fresh, distinct⟩ := nodup_cons.mp distinct
    obtain ⟨front, back, first, others, rfl⟩ := walks_cons_eq_some.mp h
    have children' := fun other member => children other (mem_cons_of_mem _ member)
    refine nodup_append.mpr ⟨each id front first, ih children' distinct others, ?_⟩
    rintro x left _ right rfl
    obtain ⟨other, member, front', found, inside⟩ := (mem_walks others).mp right
    exact forest.siblings (children id mem_cons_self) (children' other member)
      (fun eq => fresh (eq ▸ member)) ((mem_preorder first).mp left)
      ((mem_preorder found).mp inside)

theorem nodup_preorder {depth : Nat} {id : ι} {l : List ι}
    (h : preorder below depth id = some l) : l.Nodup := by
  induction depth generalizing id l with
  | zero => cases h
  | succ depth ih =>
    obtain ⟨rest, others, rfl⟩ := preorder_succ_eq_some.mp h
    refine nodup_cons.mpr ⟨fun again => ?_,
      forest.nodup_walks (fun _ child => child) (forest.distinct id) (fun _ _ => ih) others⟩
    obtain ⟨j, child, front, found, inside⟩ := (mem_walks others).mp again
    exact absurd (forest.rank_le ((mem_preorder found).mp inside))
      (Nat.not_le.mpr (forest.rises id j child))

/-- A depth above the ranks that are left is enough. -/
theorem preorder_isSome {n : Nat} (bounded : ∀ i j, j ∈ below i → rank j ≤ n) {depth : Nat}
    {id : ι} (positive : 0 < depth) (deep : n < depth + rank id) :
    ∃ l, preorder below depth id = some l := by
  induction depth generalizing id with
  | zero => cases positive
  | succ depth ih =>
    obtain ⟨rest, others⟩ := walks_isSome fun j child => by
      have rises := forest.rises id j child
      have bound := bounded id j child
      exact @ih j (by omega) (by omega)
    exact ⟨id :: rest, preorder_succ_eq_some.mpr ⟨rest, others, rfl⟩⟩

end Forest

end Terlan.Lib
