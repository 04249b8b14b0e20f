/-
  Sorting by a key. `sortByKey` is `sort_by` on a Rust vector: stable, by the `compare` of
  a key. `sortUnique` also keeps one element for each key, as a `BTreeSet` of the keys does.
  Lists that are strictly sorted by their keys are fixed points of both.
-/
import Mathlib.Algebra.Ring.Nat
import Mathlib.Data.List.Sort
import Std.Data.ExtTreeSet

namespace Terlan.Lib

open List
open Std (ExtTreeMap ExtTreeSet TransOrd LawfulEqOrd)

variable {α β κ : Type*} [Ord κ]

/-! ## The order of the keys -/

def KeyLE (key : α → κ) (a b : α) : Prop := (compare (key a) (key b)).isLE = true

def KeyLT (key : α → κ) (a b : α) : Prop := compare (key a) (key b) = .lt

instance (key : α → κ) : DecidableRel (KeyLE key) := fun a b =>
  inferInstanceAs (Decidable ((compare (key a) (key b)).isLE = true))

instance (key : α → κ) : DecidableRel (KeyLT key) := fun a b =>
  inferInstanceAs (Decidable (compare (key a) (key b) = .lt))

/-- `slice.windows(2)`. -/
def windows2 : List α → List (α × α)
  | a :: b :: rest => (a, b) :: windows2 (b :: rest)
  | _ => []

/-- `sort_by(|left, right| left.key.cmp(&right.key))`. -/
def sortByKey (key : α → κ) (l : List α) : List α := l.insertionSort (KeyLE key)

/-- Inserts into a strictly sorted list unless the key is present. -/
def insertUnique (key : α → κ) (a : α) : List α → List α
  | [] => [a]
  | b :: rest =>
    match compare (key a) (key b) with
    | .lt => a :: b :: rest
    | .eq => b :: rest
    | .gt => b :: insertUnique key a rest

/-- One element for each key, in strictly increasing order of the keys. -/
def sortUnique (key : α → κ) (l : List α) : List α := l.foldr (insertUnique key) []

variable {key : α → κ}

theorem keyLE_of_lt {a b : α} (h : KeyLT key a b) : KeyLE key a b := by
  unfold KeyLT at h
  unfold KeyLE
  rw [h]
  rfl

/-- A map that keeps the keys keeps a strict order. -/
theorem pairwise_keyLT_map {key' : β → κ} {f : α → β} {l : List α}
    (same : ∀ a ∈ l, key' (f a) = key a) (h : l.Pairwise (KeyLT key)) :
    (l.map f).Pairwise (KeyLT key') := by
  refine pairwise_map.mpr (h.imp_of_mem ?_)
  intro a b ha hb lt
  unfold KeyLT
  rw [same a ha, same b hb]
  exact lt

/-! ## Sorting -/

theorem sortByKey_perm (key : α → κ) (l : List α) : (sortByKey key l).Perm l :=
  perm_insertionSort _ l

theorem mem_sortByKey {l : List α} {a : α} : a ∈ sortByKey key l ↔ a ∈ l :=
  (sortByKey_perm key l).mem_iff

theorem length_sortByKey (key : α → κ) (l : List α) : (sortByKey key l).length = l.length :=
  (sortByKey_perm key l).length_eq

theorem sortByKey_map (key : β → κ) (f : α → β) (l : List α) :
    sortByKey key (l.map f) = (sortByKey (fun a => key (f a)) l).map f :=
  (map_insertionSort (KeyLE fun a => key (f a)) (KeyLE key) f l
    fun _ _ _ _ => Iff.rfl).symm

theorem sortByKey_eq_self {l : List α} (h : l.Pairwise (KeyLT key)) : sortByKey key l = l :=
  List.Pairwise.insertionSort_eq (h.imp keyLE_of_lt)

theorem mem_insertUnique {a b : α} {l : List α} (h : b ∈ insertUnique key a l) : b = a ∨ b ∈ l := by
  induction l with
  | nil => exact .inl (by simpa [insertUnique] using h)
  | cons c rest ih =>
    unfold insertUnique at h
    split at h
    · simpa using h
    · exact .inr h
    rcases mem_cons.mp h with rfl | h
    · exact .inr mem_cons_self
    · exact (ih h).imp_right (mem_cons_of_mem _)

theorem mem_of_mem_sortUnique {a : α} {l : List α} (h : a ∈ sortUnique key l) : a ∈ l := by
  induction l with
  | nil => exact h
  | cons b rest ih =>
    rcases mem_insertUnique h with rfl | h
    · exact mem_cons_self
    · exact mem_cons_of_mem _ (ih h)

theorem sum_insertUnique_le (key : α → κ) (f : α → Nat) (a : α) (l : List α) :
    ((insertUnique key a l).map f).sum ≤ f a + (l.map f).sum := by
  induction l with
  | nil => exact Nat.le_refl _
  | cons b rest ih =>
    unfold insertUnique
    split <;> simp only [map_cons, sum_cons] <;> omega

/-- Dropping repeated keys makes no sum of numbers larger. -/
theorem sum_sortUnique_le (key : α → κ) (f : α → Nat) (l : List α) :
    ((sortUnique key l).map f).sum ≤ (l.map f).sum := by
  induction l with
  | nil => exact Nat.le_refl _
  | cons a rest ih =>
    have := sum_insertUnique_le key f a (sortUnique key rest)
    change ((insertUnique key a (sortUnique key rest)).map f).sum ≤ _
    rw [map_cons, sum_cons]
    omega

theorem mem_insertUnique_of_mem {a b : α} {l : List α} (h : b ∈ l) : b ∈ insertUnique key a l := by
  induction l with
  | nil => cases h
  | cons c rest ih =>
    unfold insertUnique
    split
    · exact mem_cons_of_mem _ h
    · exact h
    rcases mem_cons.mp h with rfl | h
    · exact mem_cons_self
    · exact mem_cons_of_mem _ (ih h)

/-- An element is inserted, or dropped for the one that has its key. -/
theorem insertUnique_mem_or_eq (key : α → κ) (a : α) (l : List α) :
    a ∈ insertUnique key a l ∨ insertUnique key a l = l := by
  induction l with
  | nil => exact .inl mem_cons_self
  | cons b rest ih =>
    unfold insertUnique
    split
    next => exact .inl mem_cons_self
    next => exact .inr rfl
    next => exact ih.imp (mem_cons_of_mem b) (congrArg (List.cons b))

/-- When a sum of positive numbers stays what it was, no element has been dropped. -/
theorem mem_sortUnique_of_sum_eq {f : α → Nat} {l : List α}
    (positive : ∀ a ∈ l, 0 < f a) (same : ((sortUnique key l).map f).sum = (l.map f).sum) :
    ∀ a ∈ l, a ∈ sortUnique key l := by
  induction l with
  | nil => exact fun a mem => mem
  | cons a rest ih =>
    obtain ⟨own, later⟩ := forall_mem_cons.mp positive
    have inserted := sum_insertUnique_le key f a (sortUnique key rest)
    have below := sum_sortUnique_le key f rest
    change ((insertUnique key a (sortUnique key rest)).map f).sum = _ at same
    change ∀ b ∈ a :: rest, b ∈ insertUnique key a (sortUnique key rest)
    rw [map_cons, sum_cons] at same
    obtain kept | dropped := insertUnique_mem_or_eq key a (sortUnique key rest)
    · have all := ih later (by omega)
      exact forall_mem_cons.mpr ⟨kept, fun b mem => mem_insertUnique_of_mem (all b mem)⟩
    · rw [dropped] at same
      omega

theorem insertUnique_map (key : β → κ) (f : α → β) (a : α) (l : List α) :
    insertUnique key (f a) (l.map f) = (insertUnique (fun a => key (f a)) a l).map f := by
  induction l with
  | nil => rfl
  | cons b rest ih =>
    simp only [map_cons, insertUnique]
    split <;> simp [ih]

theorem sortUnique_map (key : β → κ) (f : α → β) (l : List α) :
    sortUnique key (l.map f) = (sortUnique (fun a => key (f a)) l).map f := by
  induction l with
  | nil => rfl
  | cons a rest ih =>
    have h := insertUnique_map key f a (sortUnique (fun a => key (f a)) rest)
    rw [← ih] at h
    exact h

theorem sortUnique_eq_self {l : List α} (h : l.Pairwise (KeyLT key)) : sortUnique key l = l := by
  induction l with
  | nil => rfl
  | cons a rest ih =>
    obtain ⟨below, sorted⟩ := pairwise_cons.mp h
    change insertUnique key a (sortUnique key rest) = a :: rest
    rw [ih sorted]
    cases rest with
    | nil => rfl
    | cons b rest =>
      have lt : compare (key a) (key b) = .lt := below b mem_cons_self
      simp only [insertUnique, lt]

variable [TransOrd κ]

instance (key : α → κ) : IsTrans α (KeyLE key) := ⟨fun _ _ _ h h' => Std.TransOrd.isLE_trans h h'⟩

instance (key : α → κ) : IsTrans α (KeyLT key) := ⟨fun _ _ _ h h' => Std.TransCmp.lt_trans h h'⟩

instance (key : α → κ) : Std.Total (KeyLE key) := ⟨fun a b => by
  unfold KeyLE
  rw [Std.OrientedOrd.eq_swap (a := key a)]
  cases compare (key b) (key a) <;> simp⟩

theorem keyLT_irrefl (key : α → κ) {a b : α} (h : KeyLT key a b) : key a ≠ key b := by
  intro eq
  unfold KeyLT at h
  rw [eq, Std.ReflOrd.compare_self] at h
  cases h

instance (key : α → κ) : Std.Irrefl (KeyLT key) := ⟨fun _ h => keyLT_irrefl key h rfl⟩

theorem sortByKey_sorted (key : α → κ) (l : List α) : (sortByKey key l).Pairwise (KeyLE key) :=
  pairwise_insertionSort _ l

/-- Sorting forgets the order when the key tells elements apart. -/
theorem sortByKey_eq_of_perm [Std.LawfulEqOrd κ] (injective : Function.Injective key)
    {l l' : List α} (perm : l.Perm l') : sortByKey key l = sortByKey key l' := by
  refine List.Perm.eq_of_pairwise (fun a b _ _ le le' => ?_) (sortByKey_sorted key l)
    (sortByKey_sorted key l')
    ((sortByKey_perm key l).trans (perm.trans (sortByKey_perm key l').symm))
  exact injective (Std.LawfulEqOrd.eq_of_compare (Std.OrientedCmp.isLE_antisymm le le'))

theorem insertUnique_sorted (a : α) {l : List α} (h : l.Pairwise (KeyLT key)) :
    (insertUnique key a l).Pairwise (KeyLT key) := by
  induction l with
  | nil => exact pairwise_singleton _ a
  | cons b rest ih =>
    obtain ⟨below, sorted⟩ := pairwise_cons.mp h
    unfold insertUnique
    split
    next lt =>
      refine pairwise_cons.mpr ⟨?_, h⟩
      intro c mem
      rcases mem_cons.mp mem with rfl | mem
      · exact lt
      · exact Std.TransCmp.lt_trans lt (below c mem)
    next => exact h
    next gt =>
      refine pairwise_cons.mpr ⟨?_, ih sorted⟩
      intro c mem
      rcases mem_insertUnique mem with rfl | mem
      · exact Std.OrientedCmp.gt_iff_lt.mp gt
      · exact below c mem

theorem sortUnique_sorted (key : α → κ) (l : List α) : (sortUnique key l).Pairwise (KeyLT key) := by
  induction l with
  | nil => exact .nil
  | cons a rest ih => exact insertUnique_sorted a ih

omit [TransOrd κ] in
theorem ordered_none_iff {l : List α} :
    ((none : Option κ).toList ++ l.map key).Pairwise (KeyLT id) ↔ l.Pairwise (KeyLT key) :=
  pairwise_map

variable {k : κ}

/-- Keys behind an optional earlier key are strictly sorted when the first is greater than it
and the others are strictly sorted behind the first. -/
theorem ordered_cons_iff {previous : Option κ} {ks : List κ} :
    (previous.toList ++ k :: ks).Pairwise (KeyLT id) ↔
      previous.all (fun previous => compare previous k = .lt) = true ∧
        ((some k).toList ++ ks).Pairwise (KeyLT id) := by
  cases previous with
  | none => simp
  | some p =>
    simp only [Option.toList_some, singleton_append, pairwise_cons (a := p),
      Option.all_some, decide_eq_true_eq]
    constructor
    · rintro ⟨below, sorted⟩
      exact ⟨below k mem_cons_self, sorted⟩
    · rintro ⟨lt, sorted⟩
      refine ⟨fun j mem => ?_, sorted⟩
      rcases mem_cons.mp mem with rfl | mem
      · exact lt
      · exact Std.TransCmp.lt_trans lt ((pairwise_cons.mp sorted).1 j mem)

variable [LawfulEqOrd κ]

omit [TransOrd κ] in
theorem mem_map_insertUnique {a : α} {l : List α} :
    k ∈ (insertUnique key a l).map key ↔ k = key a ∨ k ∈ l.map key := by
  induction l with
  | nil => simp [insertUnique]
  | cons b rest ih =>
    unfold insertUnique
    split
    next => simp
    next eq =>
      have eq : key a = key b := Std.LawfulEqOrd.eq_of_compare eq
      simp [eq]
    next =>
      rw [map_cons, mem_cons, ih, map_cons, mem_cons]
      tauto

omit [TransOrd κ] in
theorem mem_map_sortUnique {l : List α} : k ∈ (sortUnique key l).map key ↔ k ∈ l.map key := by
  induction l with
  | nil => rfl
  | cons a rest ih =>
    rw [map_cons, mem_cons, ← ih]
    exact mem_map_insertUnique

omit [LawfulEqOrd κ] in
/-- Strictly sorted lists with the same keys have their keys in the same order. -/
theorem keys_eq_of_sorted {key' : β → κ} {l : List α} {l' : List β}
    (h : l.Pairwise (KeyLT key)) (h' : l'.Pairwise (KeyLT key'))
    (same : ∀ k, k ∈ l.map key ↔ k ∈ l'.map key') : l.map key = l'.map key' := by
  have sorted : (l.map key).Pairwise (KeyLT id) := pairwise_map.mpr h
  have sorted' : (l'.map key').Pairwise (KeyLT id) := pairwise_map.mpr h'
  exact sorted.eq_of_mem_iff sorted' same

/-- A sorted list without adjacent equal keys is strictly sorted. -/
theorem strict_iff_windows [DecidableEq κ] {l : List α} (h : l.Pairwise (KeyLE key)) :
    (windows2 l).any (fun pair => key pair.1 = key pair.2) = false ↔ l.Pairwise (KeyLT key) := by
  match l with
  | [] => simp [windows2]
  | [a] => simp [windows2]
  | a :: b :: rest =>
    obtain ⟨below, sorted⟩ := pairwise_cons.mp h
    have ih := strict_iff_windows sorted
    have le : KeyLE key a b := below b mem_cons_self
    rw [windows2, any_cons, Bool.or_eq_false_iff, ih, decide_eq_false_iff_not]
    constructor
    · rintro ⟨ne, strict⟩
      have lt : KeyLT key a b := by
        unfold KeyLE at le
        unfold KeyLT
        cases order : compare (key a) (key b) with
        | lt => rfl
        | eq => exact absurd (Std.LawfulEqOrd.eq_of_compare order) ne
        | gt => rw [order] at le; cases le
      refine pairwise_cons.mpr ⟨?_, strict⟩
      intro c mem
      rcases mem_cons.mp mem with rfl | mem
      · exact lt
      · exact Std.TransCmp.lt_trans lt ((pairwise_cons.mp strict).1 c mem)
    · intro strict
      obtain ⟨below, strict⟩ := pairwise_cons.mp strict
      exact ⟨keyLT_irrefl key (below b mem_cons_self), strict⟩

/-- Sorting keys without repetition sorts them strictly. -/
theorem sortByKey_strict_iff {l : List α} :
    (sortByKey key l).Pairwise (KeyLT key) ↔ (l.map key).Nodup := by
  have perm : ((sortByKey key l).map key).Perm (l.map key) := (sortByKey_perm key l).map key
  rw [← perm.nodup_iff]
  constructor
  · intro h
    exact pairwise_map.mpr (h.imp fun lt => keyLT_irrefl key lt)
  · intro nodup
    classical
    have sorted := sortByKey_sorted key l
    refine (sorted.and (pairwise_map.mp nodup)).imp ?_
    rintro a b ⟨le, ne⟩
    unfold KeyLE at le
    unfold KeyLT
    cases order : compare (key a) (key b) with
    | lt => rfl
    | eq => exact absurd (Std.LawfulEqOrd.eq_of_compare order) ne
    | gt => rw [order] at le; cases le

/-- Looking for equal neighbours in the sorted list finds every repeated key. -/
theorem windows_sortByKey [DecidableEq κ] {l : List α} :
    (windows2 (sortByKey key l)).any (fun pair => key pair.1 = key pair.2) = false ↔
      (l.map key).Nodup :=
  (strict_iff_windows (sortByKey_sorted key l)).trans sortByKey_strict_iff

variable {set : ExtTreeSet κ}

/-- A `BTreeSet` of the keys iterates over them as `sortUnique` orders them. -/
theorem toList_eq_sortUnique {l : List α}
    (same : ∀ k, k ∈ set ↔ k ∈ l.map key) : set.toList = (sortUnique key l).map key := by
  have ordered : set.toList.Pairwise fun a b => compare a b = .lt := ExtTreeSet.ordered_toList
  have sorted : set.toList.Pairwise (KeyLT id) := ordered
  have h : set.toList.map id = (sortUnique key l).map key :=
    keys_eq_of_sorted sorted (sortUnique_sorted key l) fun k => by
      rw [mem_map_sortUnique, List.map_id, ExtTreeSet.mem_toList, same]
  rwa [List.map_id] at h

/-! ## Collecting keys in a set -/

omit [LawfulEqOrd κ] in
theorem nodup_toList (set : ExtTreeSet κ) : set.toList.Nodup := by
  have ordered : set.toList.Pairwise fun a b => compare a b = .lt := ExtTreeSet.ordered_toList
  exact ordered.imp fun lt => keyLT_irrefl (id : κ → κ) lt

theorem toList_insert_perm (h : k ∉ set) : (set.insert k).toList.Perm (k :: set.toList) := by
  refine (perm_ext_iff_of_nodup (nodup_toList _) ?_).mpr ?_
  · exact nodup_cons.mpr ⟨fun mem => h (ExtTreeSet.mem_toList.mp mem), nodup_toList _⟩
  · intro a
    rw [ExtTreeSet.mem_toList, ExtTreeSet.mem_insert, mem_cons, ExtTreeSet.mem_toList,
      Std.compare_eq_iff_eq, eq_comm]

theorem insert_of_mem (h : k ∈ set) : set.insert k = set := by
  apply ExtTreeSet.ext_mem
  intro a
  rw [ExtTreeSet.mem_insert, Std.compare_eq_iff_eq]
  exact ⟨fun mem => mem.elim (fun eq => eq ▸ h) id, .inr⟩

/-- Inserts every key. -/
def insertAll (set : ExtTreeSet κ) (keys : List κ) : ExtTreeSet κ :=
  keys.foldl (fun set k => set.insert k) set

theorem mem_insertAll {keys : List κ} : k ∈ insertAll set keys ↔ k ∈ set ∨ k ∈ keys := by
  unfold insertAll
  induction keys generalizing set with
  | nil => simp
  | cons key keys ih =>
    rw [foldl_cons, ih, ExtTreeSet.mem_insert, Std.compare_eq_iff_eq, mem_cons,
      @eq_comm _ key]
    tauto

/-- A key behind all others is listed last. -/
theorem toList_insert_last {ν : Type*} {m : ExtTreeMap κ ν} (v : ν)
    (last : ∀ a b, m[a]? = some b → compare a k = .lt) :
    (m.insert k v).toList = m.toList ++ [(k, v)] := by
  have sorted : (m.insert k v).toList.Pairwise (KeyLT Prod.fst) := ExtTreeMap.ordered_keys_toList
  have sorted' : (m.toList ++ [(k, v)]).Pairwise (KeyLT Prod.fst) := by
    refine pairwise_append.mpr ⟨ExtTreeMap.ordered_keys_toList, pairwise_singleton _ _, ?_⟩
    intro entry mem entry' mem'
    rw [mem_singleton.mp mem']
    exact last _ _ (ExtTreeMap.mem_toList_iff_getElem?_eq_some.mp mem)
  refine sorted.eq_of_mem_iff sorted' fun entry => ?_
  obtain ⟨a, b⟩ := entry
  rw [mem_append, mem_singleton, ExtTreeMap.mem_toList_iff_getElem?_eq_some,
    ExtTreeMap.mem_toList_iff_getElem?_eq_some, ExtTreeMap.getElem?_insert, Prod.mk.injEq]
  by_cases same : compare k a = .eq
  · obtain rfl := LawfulEqOrd.eq_of_compare same
    have vacant : m[k]? ≠ some b := by
      intro here
      have before := last k b here
      rw [Std.ReflOrd.compare_self] at before
      cases before
    rw [if_pos same, Option.some.injEq, or_iff_right vacant, and_iff_right rfl, eq_comm]
  · have apart : a ≠ k := by
      rintro rfl
      exact same Std.ReflOrd.compare_self
    rw [if_neg same, or_iff_left fun both => apart both.1]

/-- What is left of the list without its first key. -/
theorem toList_erase_first {k : κ} {rest : List κ} (first : set.toList = k :: rest) :
    (set.erase k).toList = rest := by
  have ordered : ∀ set : ExtTreeSet κ, set.toList.Pairwise (KeyLT id) := fun set =>
    show set.toList.Pairwise fun a b => compare a b = .lt from ExtTreeSet.ordered_toList
  have sorted := ordered set
  rw [first] at sorted
  obtain ⟨behind, rest'⟩ := pairwise_cons.mp sorted
  refine (ordered (set.erase k)).eq_of_mem_iff rest' fun a => ?_
  rw [ExtTreeSet.mem_toList, ExtTreeSet.mem_erase, ← ExtTreeSet.mem_toList, first, mem_cons,
    Ne, Std.compare_eq_iff_eq]
  constructor
  · rintro ⟨apart, same | mem⟩
    · exact absurd same.symm apart
    · exact mem
  · intro mem
    refine ⟨fun same => ?_, .inr mem⟩
    have before := behind a mem
    rw [same] at before
    exact keyLT_irrefl (id : κ → κ) before rfl

end Terlan.Lib
