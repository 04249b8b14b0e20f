/-
  Hash tries, without their nodes. A trie sorts entries by the slot of their hash at each
  level. `groupBySlot` and `sharedPrefix` are the two ways to take a list of entries apart;
  neither changes the order of two entries of one hash (`Alike`). `spread` counts the levels
  until a list comes apart, and is what building a trie by recursion gets smaller in.
-/
import Mathlib.Data.List.Nodup

namespace Terlan.Lib.HashTrie

open List

variable {ε η : Type} [DecidableEq η]

/-! ## Order within a hash -/

/-- Two lists hold the entries of every hash in one order. -/
def Alike (hash : ε → η) (left right : List ε) : Prop :=
  ∀ h, left.filter (hash · = h) = right.filter (hash · = h)

namespace Alike

variable {hash : ε → η} {left right : List ε}

theorem refl (entries : List ε) : Alike hash entries entries := fun _ => rfl

theorem symm (h : Alike hash left right) : Alike hash right left := fun value => (h value).symm

theorem trans {middle : List ε} (h : Alike hash left middle) (h' : Alike hash middle right) :
    Alike hash left right := fun value => (h value).trans (h' value)

theorem append {left' right' : List ε} (h : Alike hash left right)
    (h' : Alike hash left' right') : Alike hash (left ++ left') (right ++ right') := by
  intro value
  rw [filter_append, filter_append, h value, h' value]

theorem mem_iff (h : Alike hash left right) (entry : ε) : entry ∈ left ↔ entry ∈ right := by
  have one : ∀ entries : List ε,
      entry ∈ entries ↔ entry ∈ entries.filter (hash · = hash entry) := by
    intro entries
    rw [mem_filter, decide_eq_true_iff]
    exact (and_iff_left rfl).symm
  rw [one left, one right, h]

/-- A search for entries of one hash finds the same in both. -/
theorem find?_eq (h : Alike hash left right) {wanted : ε → Bool} {value : η}
    (hashed : ∀ entry ∈ left, wanted entry = true → hash entry = value) :
    left.find? wanted = right.find? wanted := by
  have narrow : ∀ entries : List ε,
      (∀ entry ∈ entries, wanted entry = true → hash entry = value) →
        entries.filter wanted = (entries.filter (hash · = value)).filter wanted := by
    intro entries hashed
    rw [filter_filter]
    refine filter_congr fun entry mem => ?_
    cases hit : wanted entry with
    | false => rfl
    | true => rw [decide_eq_true (hashed entry mem hit)]; rfl
  rw [← head?_filter, ← head?_filter, narrow left hashed,
    narrow right fun entry mem => hashed entry ((h.mem_iff entry).mpr mem), h value]

theorem flatMap {α : Type} {list : List α} {f g : α → List ε}
    (h : ∀ part ∈ list, Alike hash (f part) (g part)) :
    Alike hash (list.flatMap f) (list.flatMap g) := by
  induction list with
  | nil => exact .refl _
  | cons part rest ih =>
    rw [flatMap_cons, flatMap_cons]
    exact (h part mem_cons_self).append (ih fun other mem => h other (mem_cons_of_mem _ mem))

/-- An image of alike lists under a function that keeps the hash. -/
theorem map {φ : Type} {hash' : φ → η} {f : ε → φ} (h : Alike hash left right)
    (kept : ∀ entry ∈ left, hash' (f entry) = hash entry) :
    Alike hash' (left.map f) (right.map f) := by
  have image : ∀ entries : List ε, (∀ entry ∈ entries, hash' (f entry) = hash entry) →
      ∀ value, (entries.map f).filter (hash' · = value) =
        (entries.filter (hash · = value)).map f := by
    intro entries kept value
    rw [filter_map]
    refine congrArg (List.map f) (filter_congr fun entry mem => ?_)
    rw [Function.comp_apply, kept entry mem]
  intro value
  rw [image left kept, image right fun entry mem => kept entry ((h.mem_iff entry).mpr mem), h value]

end Alike

/-! ## Groups -/

/-- The entries of each slot in the order they had, the slots in ascending order. -/
def groupBySlot (branch : Nat) (slot : ε → Nat) (entries : List ε) : List (Nat × List ε) :=
  ((List.range branch).map fun value => (value, entries.filter (slot · = value))).filter
    fun group => !group.2.isEmpty

variable {entries : List ε}

theorem mem_groupBySlot {branch : Nat} {slot : ε → Nat} {group : Nat × List ε} :
    group ∈ groupBySlot branch slot entries ↔
      group.1 < branch ∧ group.2 = entries.filter (slot · = group.1) ∧ group.2 ≠ [] := by
  unfold groupBySlot
  rw [mem_filter, mem_map]
  constructor
  · rintro ⟨⟨value, inside, rfl⟩, occupied⟩
    exact ⟨mem_range.mp inside, rfl, by simpa using occupied⟩
  · rintro ⟨inside, filtered, occupied⟩
    exact ⟨⟨group.1, mem_range.mpr inside, by rw [← filtered]⟩, by simpa using occupied⟩

theorem groupBySlot_ascending (branch : Nat) (slot : ε → Nat) (entries : List ε) :
    ((groupBySlot branch slot entries).map Prod.fst).Pairwise (· < ·) := by
  unfold groupBySlot
  have all : (((List.range branch).map
      fun value => (value, entries.filter (slot · = value))).map Prod.fst).Pairwise (· < ·) := by
    rw [map_map]
    have ident : (Prod.fst ∘ fun value => (value, entries.filter (slot · = value))) = id := rfl
    rw [ident, List.map_id]
    exact pairwise_lt_range
  exact all.sublist (filter_sublist.map _)

/-- A flattened list whose parts are empty but for one. -/
theorem flatMap_single {α : Type} (f : α → List ε) (one : α) :
    ∀ {list : List α}, list.Nodup → one ∈ list → (∀ other ∈ list, other ≠ one → f other = []) →
      list.flatMap f = f one
  | first :: rest, distinct, inside, empty => by
    rw [flatMap_cons]
    by_cases same : first = one
    · subst same
      have none : rest.flatMap f = [] := by
        refine flatMap_eq_nil_iff.mpr fun other mem => ?_
        refine empty other (mem_cons_of_mem _ mem) ?_
        rintro rfl
        exact (nodup_cons.mp distinct).1 mem
      rw [none, append_nil]
    · rw [empty first mem_cons_self same, nil_append]
      have inside' : one ∈ rest := (mem_cons.mp inside).resolve_left fun h => same h.symm
      exact flatMap_single f one (nodup_cons.mp distinct).2 inside'
        fun other mem => empty other (mem_cons_of_mem _ mem)

theorem groupBySlot_flatten {branch : Nat} {slot : ε → Nat} :
    (groupBySlot branch slot entries).flatMap Prod.snd =
      (List.range branch).flatMap fun value => entries.filter (slot · = value) := by
  unfold groupBySlot
  induction List.range branch with
  | nil => rfl
  | cons value rest ih =>
    rw [map_cons, flatMap_cons, filter_cons, ← ih]
    cases group : entries.filter (slot · = value) with
    | nil | cons => rfl

/-- Taking entries apart by a slot of their hash keeps the order within a hash. -/
theorem groupBySlot_alike {branch : Nat} {hash : ε → η} {slot : η → Nat}
    (small : ∀ value, slot value < branch) (entries : List ε) :
    Alike hash ((groupBySlot branch (fun entry => slot (hash entry)) entries).flatMap Prod.snd)
      entries := by
  intro value
  rw [groupBySlot_flatten, filter_flatMap]
  have single := flatMap_single
    (fun part => (entries.filter fun entry => slot (hash entry) = part).filter (hash · = value))
    (slot value) nodup_range (mem_range.mpr (small value)) (fun other _ different => by
      rw [filter_filter]
      refine filter_eq_nil_iff.mpr fun entry _ hit => ?_
      rw [Bool.and_eq_true, decide_eq_true_iff, decide_eq_true_iff] at hit
      rw [hit.1] at hit
      exact different hit.2.symm)
  rw [single, filter_filter]
  refine filter_congr fun entry _ => ?_
  by_cases same : hash entry = value
  · rw [same]
    simp
  · simp [same]

/-! ## Levels that take nothing apart -/

/-- All entries have one slot at a level. -/
def Shares (slot : ε → Nat → Nat) (entries : List ε) (level : Nat) : Prop :=
  ∀ left ∈ entries, ∀ right ∈ entries, slot left level = slot right level

instance (slot : ε → Nat → Nat) (entries : List ε) (level : Nat) :
    Decidable (Shares slot entries level) :=
  inferInstanceAs (Decidable (∀ left ∈ entries, ∀ right ∈ entries, slot left level = slot right level))

/-- The slots that all entries share from a level on, for a number of levels at most. -/
def sharedPrefix (slot : ε → Nat → Nat) (entries : List ε) : Nat → Nat → List Nat
  | 0, _ => []
  | remaining + 1, level =>
    match entries.head? with
    | none => []
    | some first =>
      if entries.all (slot · level = slot first level) then
        slot first level :: sharedPrefix slot entries remaining (level + 1)
      else []

theorem sharedPrefix_shared (slot : ε → Nat → Nat) (entries : List ε) :
    ∀ (remaining level offset value : Nat),
      (sharedPrefix slot entries remaining level)[offset]? = some value →
        ∀ entry ∈ entries, slot entry (level + offset) = value := by
  intro remaining
  induction remaining with
  | zero => intro level offset value found; cases found
  | succ remaining ih =>
    intro level offset value found entry mem
    unfold sharedPrefix at found
    split at found
    next => cases found
    next first start =>
      split at found
      next all =>
        cases offset with
        | zero =>
          rw [getElem?_cons_zero] at found
          have same := of_decide_eq_true (all_eq_true.mp all entry mem)
          rw [Nat.add_zero, same]
          exact Option.some.inj found
        | succ offset =>
          rw [getElem?_cons_succ] at found
          have below := ih (level + 1) offset value found entry mem
          rw [Nat.add_right_comm] at below
          exact below
      next => cases found

variable {slot : ε → Nat → Nat}

theorem sharedPrefix_shares {remaining level offset : Nat}
    (inside : offset < (sharedPrefix slot entries remaining level).length) :
    Shares slot entries (level + offset) := by
  have found := getElem?_eq_getElem inside
  intro left memLeft right memRight
  rw [sharedPrefix_shared slot entries _ _ _ _ found left memLeft,
    sharedPrefix_shared slot entries _ _ _ _ found right memRight]

/-- The number of levels until the entries come apart, a span at most. -/
def spread (slot : ε → Nat → Nat) (entries : List ε) : Nat → Nat → Nat
  | 0, _ => 0
  | span + 1, level =>
    if Shares slot entries level then spread slot entries span (level + 1) + 1 else 0

theorem spread_le (slot : ε → Nat → Nat) (entries : List ε) :
    ∀ (span level offset : Nat), ¬ Shares slot entries (level + offset) →
      spread slot entries span level ≤ offset := by
  intro span
  induction span with
  | zero => exact fun _ _ _ => Nat.zero_le _
  | succ span ih =>
    intro level offset apart
    unfold spread
    split
    next shares =>
      cases offset with
      | zero => exact absurd shares apart
      | succ offset =>
        refine Nat.succ_le_succ (ih (level + 1) offset ?_)
        rw [Nat.add_right_comm]
        exact apart
    next => exact Nat.zero_le _

theorem spread_apart (slot : ε → Nat → Nat) (entries : List ε) :
    ∀ (span level : Nat), spread slot entries span level < span →
      ¬ Shares slot entries (level + spread slot entries span level) := by
  intro span
  induction span with
  | zero => exact fun _ less => absurd less (Nat.not_lt_zero _)
  | succ span ih =>
    intro level less
    unfold spread at less ⊢
    split
    next shares =>
      rw [if_pos shares] at less
      have below := ih (level + 1) (Nat.lt_of_succ_lt_succ less)
      rw [Nat.add_right_comm] at below
      exact below
    next apart => exact apart

/-- Skipping levels that take nothing apart brings the level that does nearer. -/
theorem spread_skip {span level skipped offset : Nat}
    (inside : offset < span) (apart : ¬ Shares slot entries (level + offset))
    (positive : 0 < skipped) (shared : ∀ inner < skipped, Shares slot entries (level + inner)) :
    spread slot entries span (level + skipped) < spread slot entries span level := by
  have less : spread slot entries span level < span :=
    Nat.lt_of_le_of_lt (spread_le slot entries span level offset apart) inside
  have first := spread_apart slot entries span level less
  have beyond : skipped ≤ spread slot entries span level := by
    by_contra short
    exact first (shared _ (Nat.lt_of_not_le short))
  have nearer := spread_le slot entries span (level + skipped)
    (spread slot entries span level - skipped) (by
      rw [Nat.add_assoc, Nat.add_sub_cancel' beyond]
      exact first)
  omega

/-- A group is shorter than what it was taken from, or the same. -/
theorem group_shrinks {span level value offset : Nat}
    (inside : offset < span) (apart : ¬ Shares slot entries (level + offset)) :
    let group := entries.filter (slot · level = value)
    group.length < entries.length ∨
      group = entries ∧ spread slot group span (level + 1) < spread slot entries span level := by
  intro group
  rcases Nat.lt_or_ge group.length entries.length with less | whole
  · exact .inl less
  have same : group = entries := filter_sublist.eq_of_length_le whole
  refine .inr ⟨same, ?_⟩
  rw [same]
  refine spread_skip inside apart Nat.zero_lt_one fun inner zero => ?_
  have only := filter_eq_self.mp same
  rw [Nat.lt_one_iff.mp zero, Nat.add_zero]
  intro left memLeft right memRight
  rw [of_decide_eq_true (only left memLeft), of_decide_eq_true (only right memRight)]

end Terlan.Lib.HashTrie
