/-
  Collecting the maximal members of a list one by one: a member below a kept one is skipped, and
  a new one drops what is below it. The relation is reflexive and nothing else. What is kept is
  always an antichain. It is the set of topmost members, in whatever order they come, exactly
  when every member is below a topmost one.
-/
import Mathlib.Data.List.Perm.Basic
import Mathlib.Data.List.Nodup
import Mathlib.Data.List.Pairwise

namespace Terlan.Lib

open List

variable {α : Type}

/-! ## Collecting -/

section collecting

variable (below : α → α → Bool)

def addMaximal (kept : List α) (a : α) : List α :=
  if kept.any (below a) then kept else (kept.filter fun b => !below b a) ++ [a]

def collectMaximal (kept members : List α) : List α := members.foldl (addMaximal below) kept

/-- No member is below another. -/
def Apart (members : List α) : Prop :=
  members.Pairwise fun a b => below a b = false ∧ below b a = false

/-- Below no other member. -/
def Topmost (members : List α) (a : α) : Prop :=
  a ∈ members ∧ ∀ b ∈ members, below a b = true → b = a

end collecting

variable {below : α → α → Bool}

variable {kept : List α}

theorem mem_addMaximal {a b : α} (h : b ∈ addMaximal below kept a) : b ∈ kept ∨ b = a := by
  unfold addMaximal at h
  split at h
  · exact .inl h
  · rcases mem_append.mp h with h | h
    · exact .inl (mem_filter.mp h).1
    · exact .inr (mem_singleton.mp h)

theorem mem_collectMaximal {kept members : List α} {b : α} (h : b ∈ collectMaximal below kept members) :
    b ∈ kept ∨ b ∈ members := by
  induction members generalizing kept with
  | nil => exact .inl h
  | cons a members ih =>
    rcases ih h with h | h
    · rcases mem_addMaximal h with h | rfl
      · exact .inl h
      · exact .inr mem_cons_self
    · exact .inr (mem_cons_of_mem _ h)

/-! ## An antichain -/

theorem apart_addMaximal (apart : Apart below kept) (a : α) :
    Apart below (addMaximal below kept a) := by
  unfold addMaximal
  split
  · exact apart
  rename_i above
  refine pairwise_append.mpr ⟨apart.filter _, pairwise_singleton _ _, ?_⟩
  intro b mem c isNew
  obtain ⟨inKept, notBelow⟩ := mem_filter.mp mem
  rw [mem_singleton.mp isNew]
  refine ⟨by simpa using notBelow, Bool.eq_false_iff.mpr fun isBelow => above ?_⟩
  exact any_eq_true.mpr ⟨b, inKept, isBelow⟩

theorem apart_collectMaximal (apart : Apart below kept) (members : List α) :
    Apart below (collectMaximal below kept members) := by
  induction members generalizing kept with
  | nil => exact apart
  | cons a members ih => exact ih (apart_addMaximal apart a)

/-- Members that are apart from each other and from what is kept are all kept. -/
theorem collectMaximal_of_apart {kept members : List α} (apart : Apart below (kept ++ members)) :
    collectMaximal below kept members = kept ++ members := by
  induction members generalizing kept with
  | nil => rw [append_nil]; rfl
  | cons a members ih =>
    have here : ∀ b ∈ kept, below b a = false ∧ below a b = false := by
      intro b mem
      exact (pairwise_append.mp apart).2.2 b mem a mem_cons_self
    have added : addMaximal below kept a = kept ++ [a] := by
      have noneAbove : kept.any (below a) = false :=
        any_eq_false.mpr fun b mem => by rw [(here b mem).2]; exact Bool.false_ne_true
      have allStay : kept.filter (fun b => !below b a) = kept :=
        filter_eq_self.mpr fun b mem => by rw [(here b mem).1]; rfl
      rw [addMaximal, noneAbove, if_neg Bool.false_ne_true, allStay]
    show collectMaximal below (addMaximal below kept a) members = _
    rw [added, ih (by rwa [append_assoc]), append_assoc]
    rfl

theorem Apart.separate {members : List α} (apart : Apart below members) {a b : α} (memA : a ∈ members)
    (memB : b ∈ members) (differ : a ≠ b) : below a b = false ∧ below b a = false := by
  have symm : Std.Symm fun a b => below a b = false ∧ below b a = false := ⟨fun _ _ h => ⟨h.2, h.1⟩⟩
  exact List.Pairwise.forall apart memA memB differ

theorem Apart.nodup (refl : ∀ a, below a a = true) {members : List α} (apart : Apart below members) :
    members.Nodup := by
  refine apart.imp fun {a b} separate same => ?_
  rw [same, refl] at separate
  exact absurd separate.1 (by simp)

/-! ## Topmost members -/

section topmost

variable {all : List α}

variable {kept : List α}

theorem addMaximal_keeps {a top : α} (memA : a ∈ all)
    (topmost : Topmost below all top) (mem : top ∈ kept) : top ∈ addMaximal below kept a := by
  unfold addMaximal
  split
  · exact mem
  rename_i above
  refine mem_append_left _ (mem_filter.mpr ⟨mem, ?_⟩)
  rw [Bool.not_eq_true']
  refine Bool.eq_false_iff.mpr fun isBelow => above ?_
  cases topmost.2 a memA isBelow
  exact any_eq_true.mpr ⟨a, mem, isBelow⟩

theorem addMaximal_adds (within : kept ⊆ all) {top : α}
    (topmost : Topmost below all top) : top ∈ addMaximal below kept top := by
  unfold addMaximal
  split
  · rename_i above
    obtain ⟨b, mem, isBelow⟩ := any_eq_true.mp above
    rwa [topmost.2 b (within mem) isBelow] at mem
  · exact mem_append_right _ (mem_singleton_self top)

theorem addMaximal_within (within : kept ⊆ all) {a : α} (memA : a ∈ all) :
    addMaximal below kept a ⊆ all := by
  intro b mem
  rcases mem_addMaximal mem with mem | rfl
  · exact within mem
  · exact memA

/-- A topmost member is kept. -/
theorem topmost_collected {kept members : List α} (within : kept ⊆ all) (subset : members ⊆ all)
    {top : α} (topmost : Topmost below all top) (mem : top ∈ kept ∨ top ∈ members) :
    top ∈ collectMaximal below kept members := by
  induction members generalizing kept with
  | nil => exact mem.resolve_right not_mem_nil
  | cons a members ih =>
    obtain ⟨memA, rest⟩ := cons_subset.mp subset
    refine ih (addMaximal_within within memA) rest ?_
    rcases mem with mem | mem
    · exact .inl (addMaximal_keeps memA topmost mem)
    rcases mem_cons.mp mem with rfl | mem
    · exact .inl (addMaximal_adds within topmost)
    · exact .inr mem

/-- Where every member is below a topmost one, what is collected is the topmost members. -/
theorem mem_collectMaximal_iff (dominated : ∀ a ∈ all, ∃ top, Topmost below all top ∧ below a top = true)
    {b : α} : b ∈ collectMaximal below [] all ↔ Topmost below all b := by
  constructor
  · intro mem
    have inAll : b ∈ all := (mem_collectMaximal mem).resolve_left not_mem_nil
    obtain ⟨top, topmost, isBelow⟩ := dominated b inAll
    have topKept := topmost_collected (nil_subset all) (List.Subset.refl all) topmost
      (.inr topmost.1)
    by_cases same : b = top
    · rwa [same]
    have apart := @apart_collectMaximal _ below [] List.Pairwise.nil all
    have separate := (apart.separate mem topKept same).1
    rw [isBelow] at separate
    exact absurd separate (by simp)
  · intro topmost
    exact topmost_collected (nil_subset all) (List.Subset.refl all) topmost (.inr topmost.1)

theorem collectMaximal_perm (refl : ∀ a, below a a = true)
    (dominated : ∀ a ∈ all, ∃ top, Topmost below all top ∧ below a top = true)
    {other : List α} (perm : other.Perm all) :
    (collectMaximal below [] other).Perm (collectMaximal below [] all) := by
  have same : ∀ a, Topmost below other a ↔ Topmost below all a := by
    intro a
    simp only [Topmost, perm.mem_iff]
  have dominated' : ∀ a ∈ other, ∃ top, Topmost below other top ∧ below a top = true := by
    intro a mem
    obtain ⟨top, topmost, isBelow⟩ := dominated a (perm.mem_iff.mp mem)
    exact ⟨top, (same top).mpr topmost, isBelow⟩
  refine (perm_ext_iff_of_nodup ?_ ?_).mpr fun a => ?_
  · exact (apart_collectMaximal List.Pairwise.nil other).nodup refl
  · exact (apart_collectMaximal List.Pairwise.nil all).nodup refl
  · rw [mem_collectMaximal_iff dominated', mem_collectMaximal_iff dominated, same]

/-! ## Orders that disagree -/

/-- Of a member and another one above it, the first can be left out. -/
theorem not_mem_collectMaximal_of_above [DecidableEq α] {a b : α} (memB : b ∈ all) (differ : b ≠ a)
    (isBelow : below a b = true) : ∃ order : List α, order.Perm all ∧ a ∉ collectMaximal below [] order := by
  let copies := (all.erase b).filter (· = a)
  let others := (all.erase b).filter fun c => !decide (c = a)
  refine ⟨b :: (copies ++ others), ?_, fun kept => ?_⟩
  · exact ((filter_append_perm _ _).cons b).trans (perm_cons_erase memB).symm
  · have skipped : ∀ copies : List α, (∀ c ∈ copies, c = a) →
        collectMaximal below [b] copies = [b] := by
      intro copies same
      induction copies with
      | nil => rfl
      | cons c repeated ih =>
        obtain ⟨isCopy, rest⟩ := forall_mem_cons.mp same
        have skip : addMaximal below [b] c = [b] := by simp [addMaximal, isCopy, isBelow]
        show collectMaximal below (addMaximal below [b] c) repeated = [b]
        rw [skip, ih rest]
    have split : collectMaximal below [] (b :: (copies ++ others)) =
        collectMaximal below (collectMaximal below [b] copies) others := foldl_append
    rw [split, skipped copies fun c mem => by simpa using (mem_filter.mp mem).2] at kept
    rcases mem_collectMaximal kept with isFirst | mem
    · exact differ (mem_singleton.mp isFirst).symm
    · simpa using (mem_filter.mp mem).2

/-- A member that is not topmost stays, or another one that is not topmost takes its place. -/
theorem addMaximal_not_topmost (some : ∃ b ∈ kept, ¬ Topmost below all b) {a : α}
    (notTop : ¬ Topmost below all a) : ∃ b ∈ addMaximal below kept a, ¬ Topmost below all b := by
  unfold addMaximal
  split
  · exact some
  · exact ⟨a, mem_append_right _ (mem_singleton_self a), notTop⟩

theorem collectMaximal_not_topmost {members : List α} (notTop : ∀ a ∈ members, ¬ Topmost below all a)
    (enters : (∃ b ∈ kept, ¬ Topmost below all b) ∨
      ∃ a ∈ members, ∀ top, Topmost below all top → below a top = false) :
    ∃ b ∈ collectMaximal below kept members, ¬ Topmost below all b := by
  induction members generalizing kept with
  | nil => exact enters.resolve_right fun ⟨_, mem, _⟩ => not_mem_nil mem
  | cons c members ih =>
    obtain ⟨notTopC, rest⟩ := forall_mem_cons.mp notTop
    refine ih rest ?_
    by_cases already : ∃ b ∈ kept, ¬ Topmost below all b
    · exact .inl (addMaximal_not_topmost already notTopC)
    obtain ⟨a, mem, undominated⟩ := enters.resolve_left already
    rcases mem_cons.mp mem with rfl | mem
    · refine .inl ⟨a, ?_, notTopC⟩
      have noneAbove : ¬ kept.any (below a) = true := by
        intro above
        obtain ⟨b, memB, isBelow⟩ := any_eq_true.mp above
        refine already ⟨b, memB, fun topmost => ?_⟩
        rw [undominated b topmost] at isBelow
        exact absurd isBelow (by simp)
      rw [addMaximal, if_neg noneAbove]
      exact mem_append_right _ (mem_singleton_self a)
    · exact .inr ⟨a, mem, undominated⟩

/-- Where some member is below no topmost one, one order keeps a member that another leaves
out. -/
theorem exists_orders_of_undominated [DecidableEq α] (refl : ∀ a, below a a = true) {a : α} (mem : a ∈ all)
    (undominated : ∀ top, Topmost below all top → below a top = false) :
    ∃ (s : α) (first second : List α), s ∈ all ∧ ¬ Topmost below all s ∧ first.Perm all ∧ second.Perm all ∧
      s ∈ collectMaximal below [] first ∧ s ∉ collectMaximal below [] second := by
  classical
  let tops := all.filter fun b => Topmost below all b
  let others := all.filter fun b => !decide (Topmost below all b)
  have isOther : ∀ b ∈ others, ¬ Topmost below all b := fun b h => by simpa using (mem_filter.mp h).2
  have notTop : ¬ Topmost below all a := by
    intro topmost
    have apart := undominated a topmost
    rw [refl] at apart
    exact absurd apart (by simp)
  have memOther : a ∈ others := mem_filter.mpr ⟨mem, by simpa using notTop⟩
  obtain ⟨s, kept, notTopS⟩ : ∃ s ∈ collectMaximal below (collectMaximal below [] tops) others,
      ¬ Topmost below all s :=
    collectMaximal_not_topmost isOther (.inr ⟨a, memOther, undominated⟩)
  have memS : s ∈ all := by
    rcases mem_collectMaximal kept with inTops | inOthers
    · exact (mem_filter.mp ((mem_collectMaximal inTops).resolve_left not_mem_nil)).1
    · exact (mem_filter.mp inOthers).1
  obtain ⟨b, memB, isBelow, differ⟩ : ∃ b ∈ all, below s b = true ∧ b ≠ s := by
    by_contra none
    push Not at none
    exact notTopS ⟨memS, none⟩
  obtain ⟨order, perm, leftOut⟩ := not_mem_collectMaximal_of_above memB differ isBelow
  refine ⟨s, tops ++ others, order, memS, notTopS, filter_append_perm _ _, perm, ?_, leftOut⟩
  show s ∈ (tops ++ others).foldl (addMaximal below) []
  rw [foldl_append]
  exact kept

end topmost

end Terlan.Lib
