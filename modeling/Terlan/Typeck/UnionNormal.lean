/-
  Normal forms of unions. The members are collected one by one: those below a kept one are
  skipped. Only one level of nesting is flattened, and the comparison is neither antisymmetric
  nor transitive, so a normal form is canonical exactly when every member is below a topmost one
  and the topmost ones are no unions themselves.
-/
import Terlan.Lib.Maximal
import Terlan.Typeck.Coverage

namespace Terlan.Typeck

open Terlan.Lib List

/-! ## What normalization is for -/

/-- Which types one value belongs to: wider types hold it too. -/
structure Membership (holds : Ty → Prop) : Prop where
  never : ¬ holds .never
  term : holds .term
  union : ∀ items, holds (.union items) ↔ ∃ item ∈ items, holds item
  widens : ∀ a b, isSubtype a b = true → holds a → holds b

/-- The types that are given, with the members of a union in its place. -/
def inputs (types : List Ty) : List Ty := types.flatMap unionMembers

structure Canonical (types : List Ty) : Prop where
  /-- The same values belong to it, however types are read. -/
  denotes : ∀ holds, Membership holds → (holds (normalizeUnion types) ↔ ∃ ty ∈ types, holds ty)
  flat : ∀ member ∈ unionMembers (normalizeUnion types), ∀ items, member ≠ .union items
  apart : Apart isSubtype (unionMembers (normalizeUnion types))
  /-- The same inputs in another order give the same members. -/
  ordered : ∀ types', (inputs types').Perm (inputs types) →
    (unionMembers (normalizeUnion types')).Perm (unionMembers (normalizeUnion types))
  settled : normalizeUnion [normalizeUnion types] = normalizeUnion types

/-- The inputs that are collected. -/
def candidates (types : List Ty) : List Ty := (inputs types).filter (· ≠ .never)

/-- A union that is a normal form. -/
structure Settled (items : List Ty) : Prop where
  several : 2 ≤ items.length
  apart : Apart isSubtype items
  plain : ∀ item ∈ items, item ≠ .never ∧ item ≠ .term ∧ ∀ inner, item ≠ .union inner

/-- A wider topmost input for each, and no topmost input is a union, unless it is all there is
and a normal form. -/
def Normalizable (types : List Ty) : Prop :=
  .term ∈ inputs types ∨
    (∀ a ∈ candidates types, ∃ top, Topmost isSubtype (candidates types) top ∧ isSubtype a top = true) ∧
      ((∀ top, Topmost isSubtype (candidates types) top → ∀ items, top ≠ .union items) ∨
        ∃ items, (∀ top, Topmost isSubtype (candidates types) top ↔ top = .union items) ∧ Settled items)

/-! ## The comparison -/

theorem isSubtype_refl (ty : Ty) : isSubtype ty ty = true := by
  unfold isSubtype
  simp

theorem isSubtype_dynamic (ty : Ty) : isSubtype ty .dynamic = true := by
  unfold isSubtype
  simp

/-- Only a union itself and the type of everything are above a union. -/
theorem above_union {items : List Ty} {b : Ty} (h : isSubtype (.union items) b = true) :
    b = .union items ∨ b = .dynamic ∨ b = .term := by
  unfold isSubtype at h
  cases b <;> simp_all [existentialTypesAreAlphaEquivalent, areUnitEquivalentTypes,
    areTemplateHtmlEquivalentTypes, isUnitNamedType, isUnitLiteralType, isTemplateHtmlNamedType,
    isInternalHtmlValueType]

theorem above_dynamic {b : Ty} (h : isSubtype .dynamic b = true) : b = .dynamic ∨ b = .term := by
  unfold isSubtype at h
  cases b <;> simp_all [existentialTypesAreAlphaEquivalent, areUnitEquivalentTypes,
    areTemplateHtmlEquivalentTypes, isUnitNamedType, isUnitLiteralType, isTemplateHtmlNamedType,
    isInternalHtmlValueType]

/-! ## The loop -/

def assembleUnion : List Ty → Ty
  | [] => .never
  | [ty] => ty
  | normalized => .union normalized

theorem normalizeVariants_eq {normalized candidates : List Ty} :
    normalizeVariants normalized candidates =
      if .term ∈ candidates then none
      else some (collectMaximal isSubtype normalized (candidates.filter (· ≠ .never))) := by
  induction candidates generalizing normalized with
  | nil => rfl
  | cons candidate candidates ih =>
    unfold normalizeVariants
    by_cases isNever : candidate = .never
    · simp [isNever, ih]
    by_cases isTerm : candidate = .term
    · simp [isTerm]
    have kept : (candidate :: candidates).filter (· ≠ .never) =
        candidate :: candidates.filter (· ≠ .never) := by simp [isNever]
    have notTerm : Ty.term ∈ candidate :: candidates ↔ Ty.term ∈ candidates := by
      simp [Ne.symm isTerm]
    have step : collectMaximal isSubtype normalized (candidate :: candidates.filter (· ≠ .never)) =
        collectMaximal isSubtype (addMaximal isSubtype normalized candidate)
          (candidates.filter (· ≠ .never)) := rfl
    rw [if_neg isNever, if_neg isTerm, kept, step]
    simp only [notTerm, ih, addMaximal]
    split <;> rfl

theorem normalizeUnion_eq (types : List Ty) :
    normalizeUnion types =
      if .term ∈ inputs types then .term
      else assembleUnion (collectMaximal isSubtype []
        ((types.reverse.flatMap unionMembers).filter (· ≠ .never))) := by
  have sameTerm : Ty.term ∈ types.reverse.flatMap unionMembers ↔ Ty.term ∈ inputs types := by
    simp [inputs]
  unfold normalizeUnion
  rw [normalizeVariants_eq]
  simp only [sameTerm]
  by_cases isTerm : Ty.term ∈ inputs types
  · rw [if_pos isTerm, if_pos isTerm]
  rw [if_neg isTerm, if_neg isTerm]
  cases collectMaximal isSubtype [] ((types.reverse.flatMap unionMembers).filter (· ≠ .never)) with
  | nil => rfl
  | cons first rest => cases rest <;> rfl

/-! ## Denotation -/

variable {holds : Ty → Prop}

section

variable (membership : Membership holds)
include membership

theorem holds_unionMembers (ty : Ty) :
    (∃ member ∈ unionMembers ty, holds member) ↔ holds ty := by
  unfold unionMembers
  split
  · exact (membership.union _).symm
  · simp

theorem holds_inputs (types : List Ty) :
    (∃ member ∈ inputs types, holds member) ↔ ∃ ty ∈ types, holds ty := by
  constructor
  · rintro ⟨member, mem, h⟩
    obtain ⟨ty, memTy, inside⟩ := mem_flatMap.mp mem
    exact ⟨ty, memTy, (holds_unionMembers membership ty).mp ⟨member, inside, h⟩⟩
  · rintro ⟨ty, memTy, h⟩
    obtain ⟨member, inside, h⟩ := (holds_unionMembers membership ty).mpr h
    exact ⟨member, mem_flatMap.mpr ⟨ty, memTy, inside⟩, h⟩

theorem holds_assembleUnion (members : List Ty) :
    holds (assembleUnion members) ↔ ∃ member ∈ members, holds member := by
  unfold assembleUnion
  split
  · simp [membership.never]
  · simp
  · exact membership.union _

/-- A step of the collection loses no value. -/
theorem holds_addMaximal (kept : List Ty) (ty : Ty) :
    (∃ member ∈ addMaximal isSubtype kept ty, holds member) ↔ (∃ member ∈ kept, holds member) ∨ holds ty := by
  unfold addMaximal
  split
  · rename_i above
    obtain ⟨wider, mem, isBelow⟩ := any_eq_true.mp above
    exact ⟨.inl, fun h => h.elim id fun h => ⟨wider, mem, membership.widens ty wider isBelow h⟩⟩
  constructor
  · rintro ⟨member, mem, h⟩
    rcases mem_append.mp mem with mem | mem
    · exact .inl ⟨member, (mem_filter.mp mem).1, h⟩
    · exact .inr (mem_singleton.mp mem ▸ h)
  · rintro (⟨member, mem, h⟩ | h)
    · by_cases isBelow : isSubtype member ty = true
      · exact ⟨ty, by simp, membership.widens member ty isBelow h⟩
      · exact ⟨member, by simp [mem, isBelow], h⟩
    · exact ⟨ty, by simp, h⟩

theorem holds_collectMaximal (kept members : List Ty) :
    (∃ member ∈ collectMaximal isSubtype kept members, holds member) ↔
      (∃ member ∈ kept, holds member) ∨ ∃ member ∈ members, holds member := by
  induction members generalizing kept with
  | nil => simp [collectMaximal]
  | cons ty members ih =>
    have step : collectMaximal isSubtype kept (ty :: members) =
        collectMaximal isSubtype (addMaximal isSubtype kept ty) members := rfl
    rw [step, ih, holds_addMaximal membership, exists_mem_cons_iff, or_assoc]

/-- A normal form always holds the values of the union. -/
theorem holds_normalizeUnion (types : List Ty) :
    holds (normalizeUnion types) ↔ ∃ ty ∈ types, holds ty := by
  rw [normalizeUnion_eq, ← holds_inputs membership]
  split
  · rename_i isTerm
    exact ⟨fun h => ⟨.term, isTerm, h⟩, fun _ => membership.term⟩
  rw [holds_assembleUnion membership, holds_collectMaximal membership]
  constructor
  · rintro (⟨_, mem, _⟩ | ⟨member, mem, h⟩)
    · exact absurd mem not_mem_nil
    · exact ⟨member, by simpa [inputs] using (mem_filter.mp mem).1, h⟩
  · rintro ⟨member, mem, h⟩
    have notNever : member ≠ .never := by
      rintro rfl
      exact membership.never h
    exact .inr ⟨member, by simpa [inputs, notNever] using mem, h⟩

end

/-! ## Canonical forms -/

section canonical

variable {types : List Ty}

/-- The members that are collected when the inputs come in some order. -/
theorem normalizeUnion_of_order (notTerm : .term ∉ inputs types) {order : List Ty}
    (perm : order.Perm (candidates types)) : ∃ types', (inputs types').Perm (inputs types) ∧
      normalizeUnion types' = assembleUnion (collectMaximal isSubtype [] order) := by
  let nevers := (inputs types).filter fun ty => !decide (ty ≠ .never)
  have arranged : (order ++ nevers).Perm (inputs types) :=
    (perm.append_right nevers).trans (filter_append_perm _ _)
  have input : inputs [.union (order ++ nevers)] = order ++ nevers := by simp [inputs, unionMembers]
  refine ⟨[.union (order ++ nevers)], by rw [input]; exact arranged, ?_⟩
  have keptOrder : (order ++ nevers).filter (· ≠ .never) = order := by
    rw [filter_append, filter_eq_self.mpr, filter_eq_nil_iff.mpr, append_nil]
    · intro ty mem
      have := (mem_filter.mp mem).2
      simpa using this
    · intro ty mem
      exact (mem_filter.mp (perm.mem_iff.mp mem)).2
  rw [normalizeUnion_eq, input, if_neg fun mem => notTerm (arranged.mem_iff.mp mem)]
  simp only [reverse_singleton, flatMap_singleton, unionMembers]
  rw [keptOrder]

/-- The inputs in the order in which the loop takes them. -/
def taken (types : List Ty) : List Ty := (types.reverse.flatMap unionMembers).filter (· ≠ .never)

theorem taken_perm (types : List Ty) : (taken types).Perm (candidates types) :=
  ((reverse_perm types).flatMap_right unionMembers).filter _

theorem normalizeUnion_of_not_term (notTerm : .term ∉ inputs types) :
    normalizeUnion types = assembleUnion (collectMaximal isSubtype [] (taken types)) := by
  rw [normalizeUnion_eq, if_neg notTerm]
  rfl

theorem normalizeUnion_of_term (isTerm : .term ∈ inputs types) : normalizeUnion types = .term := by
  rw [normalizeUnion_eq, if_pos isTerm]

theorem candidate_plain (notTerm : .term ∉ inputs types) {ty : Ty} (mem : ty ∈ candidates types) :
    ty ≠ .never ∧ ty ≠ .term := by
  obtain ⟨inInputs, notNever⟩ := mem_filter.mp mem
  refine ⟨by simpa using notNever, ?_⟩
  rintro rfl
  exact notTerm inInputs

variable {members : List Ty}

theorem unionMembers_assembleUnion (plain : ∀ member ∈ members, ∀ items, member ≠ .union items) :
    unionMembers (assembleUnion members) = if members = [] then [.never] else members := by
  cases members with
  | nil => rfl
  | cons first rest =>
    cases rest with
    | nil =>
      rw [if_neg (cons_ne_nil _ _)]
      show unionMembers first = [first]
      unfold unionMembers
      split
      · exact absurd rfl (plain _ mem_cons_self _)
      · rfl
    | cons => rfl

/-- An antichain without special members is a normal form. -/
theorem normalizeUnion_assembleUnion (apart : Apart isSubtype members)
    (plain : ∀ member ∈ members, member ≠ .never ∧ member ≠ .term ∧ ∀ items, member ≠ .union items) :
    normalizeUnion [assembleUnion members] = assembleUnion members := by
  by_cases empty : members = []
  · rw [empty]
    rfl
  have input : inputs [assembleUnion members] = members := by
    have single := unionMembers_assembleUnion fun member mem => (plain member mem).2.2
    rw [if_neg empty] at single
    simp [inputs, single]
  have notTerm : Ty.term ∉ inputs [assembleUnion members] := by
    rw [input]
    exact fun mem => (plain _ mem).2.1 rfl
  have order : taken [assembleUnion members] = members := by
    have same : taken [assembleUnion members] = (inputs [assembleUnion members]).filter (· ≠ .never) := rfl
    rw [same, input]
    exact filter_eq_self.mpr fun member mem => decide_eq_true (plain member mem).1
  rw [normalizeUnion_of_not_term notTerm, order, collectMaximal_of_apart (by simpa using apart)]
  rfl

theorem canonical_of_term (isTerm : .term ∈ inputs types) : Canonical types := by
  have single : unionMembers (normalizeUnion types) = [.term] := by
    rw [normalizeUnion_of_term isTerm]
    rfl
  refine ⟨fun holds membership => holds_normalizeUnion membership types, ?_, ?_, fun types' perm => ?_, ?_⟩
  · rw [single]
    simp
  · rw [single]
    exact pairwise_singleton _ _
  · rw [single, normalizeUnion_of_term (perm.mem_iff.mpr isTerm)]
    exact List.Perm.refl _
  · rw [normalizeUnion_of_term isTerm]
    exact normalizeUnion_of_term (mem_singleton_self _)

section dominated

variable (notTerm : .term ∉ inputs types)
  (dominated : ∀ a ∈ candidates types, ∃ top, Topmost isSubtype (candidates types) top ∧ isSubtype a top = true)

include notTerm dominated

/-- Whatever the order, the topmost inputs are collected. -/
theorem collected_perm {types' : List Ty} (perm : (inputs types').Perm (inputs types)) :
    ∃ members, normalizeUnion types' = assembleUnion members ∧
      members.Perm (collectMaximal isSubtype [] (taken types)) ∧ Apart isSubtype members := by
  have notTerm' : Ty.term ∉ inputs types' := fun mem => notTerm (perm.mem_iff.mp mem)
  have sameTaken : (taken types').Perm (candidates types) := (taken_perm types').trans (perm.filter _)
  refine ⟨_, normalizeUnion_of_not_term notTerm', ?_, apart_collectMaximal List.Pairwise.nil _⟩
  exact (collectMaximal_perm isSubtype_refl dominated sameTaken).trans
    (collectMaximal_perm isSubtype_refl dominated (taken_perm types)).symm

omit notTerm in
theorem mem_collected_iff {member : Ty} : member ∈ collectMaximal isSubtype [] (taken types) ↔
    Topmost isSubtype (candidates types) member := by
  rw [← mem_collectMaximal_iff dominated]
  exact (collectMaximal_perm isSubtype_refl dominated (taken_perm types)).mem_iff

theorem canonical_of_plain
    (plain : ∀ top, Topmost isSubtype (candidates types) top → ∀ items, top ≠ .union items) :
    Canonical types := by
  have result := normalizeUnion_of_not_term notTerm
  have apart : Apart isSubtype (collectMaximal isSubtype [] (taken types)) :=
    apart_collectMaximal List.Pairwise.nil _
  have all : ∀ member ∈ collectMaximal isSubtype [] (taken types),
      member ≠ .never ∧ member ≠ .term ∧ ∀ items, member ≠ .union items := by
    intro member mem
    have topmost := (mem_collected_iff dominated).mp mem
    have special := candidate_plain notTerm topmost.1
    exact ⟨special.1, special.2, plain member topmost⟩
  have members := unionMembers_assembleUnion fun member mem => (all member mem).2.2
  rw [← result] at members
  refine ⟨fun holds membership => holds_normalizeUnion membership types, ?_, ?_, fun types' perm => ?_, ?_⟩
  · rw [members]
    split
    · simp
    · exact fun member mem => (all member mem).2.2
  · rw [members]
    split
    · exact pairwise_singleton _ _
    · exact apart
  · obtain ⟨members', result', permMembers, _⟩ := collected_perm notTerm dominated perm
    rw [result', unionMembers_assembleUnion fun member mem => (all member (permMembers.mem_iff.mp mem)).2.2,
      members]
    have empty : members' = [] ↔ collectMaximal isSubtype [] (taken types) = [] := by
      constructor
      · rintro rfl
        exact nil_perm.mp permMembers
      · intro none
        rw [none] at permMembers
        exact perm_nil.mp permMembers
    simp only [empty]
    split
    · exact List.Perm.refl _
    · exact permMembers
  · rw [result]
    exact normalizeUnion_assembleUnion apart all

theorem canonical_of_settled {items : List Ty}
    (only : ∀ top, Topmost isSubtype (candidates types) top ↔ top = .union items) (settled : Settled items) :
    Canonical types := by
  have single : ∀ members : List Ty, members.Perm (collectMaximal isSubtype [] (taken types)) →
      Apart isSubtype members → members = [.union items] := by
    intro members perm apart
    have isUnion : ∀ member, member ∈ members ↔ member ∈ [Ty.union items] := by
      intro member
      rw [perm.mem_iff, mem_collected_iff dominated, only, mem_singleton]
    have permSingle := (perm_ext_iff_of_nodup (apart.nodup isSubtype_refl) (nodup_singleton _)).mpr
      isUnion
    exact perm_singleton.mp permSingle
  have result : ∀ types', (inputs types').Perm (inputs types) → normalizeUnion types' = .union items := by
    intro types' perm
    obtain ⟨members, isResult, permMembers, apart⟩ := collected_perm notTerm dominated perm
    rw [isResult, single members permMembers apart]
    rfl
  have assembled : assembleUnion items = .union items := by
    cases items with
    | nil => exact absurd settled.several (by simp)
    | cons first rest =>
      cases rest with
      | nil => exact absurd settled.several (by simp)
      | cons => rfl
  refine ⟨fun holds membership => holds_normalizeUnion membership types, ?_, ?_, fun types' perm => ?_, ?_⟩
  · rw [result types (List.Perm.refl _)]
    exact fun member mem => (settled.plain member mem).2.2
  · rw [result types (List.Perm.refl _)]
    exact settled.apart
  · rw [result types' perm, result types (List.Perm.refl _)]
  · rw [result types (List.Perm.refl _), ← assembled]
    exact normalizeUnion_assembleUnion settled.apart settled.plain

end dominated

/-! ## Nothing less is canonical -/

theorem mem_unionMembers_assembleUnion {ty : Ty} (mem : ty ∈ members)
    (several : ty ∈ unionMembers ty ∨ ∃ other ∈ members, other ≠ ty) :
    ty ∈ unionMembers (assembleUnion members) := by
  cases members with
  | nil => exact absurd mem not_mem_nil
  | cons first rest =>
    cases rest with
    | nil =>
      cases mem_singleton.mp mem
      refine several.resolve_right ?_
      rintro ⟨other, memOther, differ⟩
      exact differ (mem_singleton.mp memOther)
    | cons => exact mem

theorem of_mem_unionMembers_assembleUnion {ty : Ty}
    (mem : ty ∈ unionMembers (assembleUnion members)) :
    ty ∈ members ∨ ty = .never ∨ ∃ items, members = [.union items] ∧ ty ∈ items := by
  cases members with
  | nil => exact .inr (.inl (mem_singleton.mp mem))
  | cons first rest =>
    cases rest with
    | cons => exact .inl mem
    | nil =>
      change ty ∈ unionMembers first at mem
      unfold unionMembers at mem
      split at mem
      · exact .inr (.inr ⟨_, rfl, mem⟩)
      · exact .inl mem

theorem not_mem_items (items : List Ty) : Ty.union items ∉ items := by
  intro mem
  have smaller := sizeOf_lt_of_mem mem
  rw [Ty.union.sizeOf_spec] at smaller
  omega

/-- A topmost union leaves no other topmost input. -/
theorem dominated_of_union_below (notTerm : .term ∉ inputs types) {items : List Ty}
    (mem : .union items ∈ candidates types) (notTop : ¬ Topmost isSubtype (candidates types) (.union items)) :
    Topmost isSubtype (candidates types) .dynamic := by
  obtain ⟨b, memB, isBelow, differ⟩ : ∃ b ∈ candidates types,
      isSubtype (.union items) b = true ∧ b ≠ .union items := by
    by_contra none
    push Not at none
    exact notTop ⟨mem, none⟩
  have special := candidate_plain notTerm memB
  rcases above_union isBelow with same | rfl | rfl
  · exact absurd same differ
  · refine ⟨memB, fun c memC isBelow => ?_⟩
    exact (above_dynamic isBelow).resolve_right (candidate_plain notTerm memC).2
  · exact absurd rfl special.2

theorem dominated_of_canonical (canonical : Canonical types) (notTerm : .term ∉ inputs types) :
    ∀ a ∈ candidates types, ∃ top, Topmost isSubtype (candidates types) top ∧ isSubtype a top = true := by
  intro a mem
  by_contra none
  push Not at none
  have undominated : ∀ top, Topmost isSubtype (candidates types) top → isSubtype a top = false :=
    fun top topmost => Bool.eq_false_iff.mpr (none top topmost)
  have notDynamic : ¬ Topmost isSubtype (candidates types) .dynamic := fun topmost =>
    none _ topmost (isSubtype_dynamic a)
  obtain ⟨s, first, second, memS, notTopS, permFirst, permSecond, kept, leftOut⟩ :=
    exists_orders_of_undominated isSubtype_refl mem undominated
  have plainS : ∀ items, s ≠ .union items := by
    rintro items rfl
    exact notDynamic (dominated_of_union_below notTerm memS notTopS)
  have single : s ∈ unionMembers s := by
    unfold unionMembers
    split
    · exact absurd rfl (plainS _)
    · exact mem_singleton_self s
  obtain ⟨firstTypes, sameFirst, isFirst⟩ := normalizeUnion_of_order notTerm permFirst
  obtain ⟨secondTypes, sameSecond, isSecond⟩ := normalizeUnion_of_order notTerm permSecond
  have same : (unionMembers (assembleUnion (collectMaximal isSubtype [] first))).Perm
      (unionMembers (assembleUnion (collectMaximal isSubtype [] second))) := by
    rw [← isFirst, ← isSecond]
    exact (canonical.ordered firstTypes sameFirst).trans (canonical.ordered secondTypes sameSecond).symm
  have inSecond := same.mem_iff.mp (mem_unionMembers_assembleUnion kept (.inl single))
  rcases of_mem_unionMembers_assembleUnion inSecond with inside | isNever | ⟨items, isSingle, _⟩
  · exact leftOut inside
  · exact (candidate_plain notTerm memS).1 isNever
  have memU : Ty.union items ∈ candidates types := by
    have inside : Ty.union items ∈ collectMaximal isSubtype [] second := by simp [isSingle]
    exact permSecond.mem_iff.mp ((mem_collectMaximal inside).resolve_left not_mem_nil)
  have topmost : Topmost isSubtype (candidates types) (.union items) := by
    by_contra notTop
    exact notDynamic (dominated_of_union_below notTerm memU notTop)
  have keptU := topmost_collected (nil_subset _) (fun _ mem => permFirst.mem_iff.mp mem) topmost
    (.inr (permFirst.mem_iff.mpr memU))
  have inFirst := mem_unionMembers_assembleUnion keptU (.inr ⟨s, kept, plainS items⟩)
  have inItems := same.mem_iff.mp inFirst
  rw [isSingle] at inItems
  exact not_mem_items items inItems

/-- A union that is its own normal form keeps its items, two or more of them. -/
theorem items_of_normalizeUnion {items : List Ty} (settled : normalizeUnion [.union items] = .union items) :
    2 ≤ items.length ∧ ∀ item ∈ items, item ≠ .never ∧ item ≠ .term := by
  have input : inputs [.union items] = items := by simp [inputs, unionMembers]
  have notTerm : Ty.term ∉ inputs [.union items] := by
    intro isTerm
    rw [normalizeUnion_of_term isTerm] at settled
    cases settled
  have within : ∀ member ∈ collectMaximal isSubtype [] (taken [.union items]), member ∈ candidates [.union items] :=
    fun member mem => (taken_perm _).mem_iff.mp ((mem_collectMaximal mem).resolve_left not_mem_nil)
  rw [normalizeUnion_of_not_term notTerm] at settled
  have kept : collectMaximal isSubtype [] (taken [.union items]) = items ∧ 2 ≤ items.length := by
    cases members : collectMaximal isSubtype [] (taken [.union items]) with
    | nil =>
      rw [members] at settled
      cases settled
    | cons first rest =>
      rw [members] at settled
      cases rest with
      | nil =>
        have isItem := (mem_filter.mp (within first (by simp [members]))).1
        rw [input, show first = .union items from settled] at isItem
        exact absurd isItem (not_mem_items items)
      | cons second rest =>
        have same : first :: second :: rest = items := Ty.union.inj settled
        exact ⟨same, by rw [← same]; simp⟩
  refine ⟨kept.2, fun item mem => candidate_plain notTerm (within item ?_)⟩
  rw [kept.1]
  exact mem

theorem normalizable_of_canonical (canonical : Canonical types) : Normalizable types := by
  by_cases isTerm : Ty.term ∈ inputs types
  · exact .inl isTerm
  have dominated := dominated_of_canonical canonical isTerm
  refine .inr ⟨dominated, ?_⟩
  by_cases plain : ∀ top, Topmost isSubtype (candidates types) top → ∀ items, top ≠ .union items
  · exact .inl plain
  push Not at plain
  obtain ⟨_, topmost, items, rfl⟩ := plain
  have result := normalizeUnion_of_not_term isTerm
  have kept := (mem_collected_iff dominated).mpr topmost
  -- Beside another member the union would be a member itself.
  have alone : ∀ member ∈ collectMaximal isSubtype [] (taken types), member = .union items := by
    by_contra other
    push Not at other
    have inside := mem_unionMembers_assembleUnion kept (.inr other)
    rw [← result] at inside
    exact canonical.flat _ inside items rfl
  have isSingle : collectMaximal isSubtype [] (taken types) = [.union items] := by
    have apart : Apart isSubtype (collectMaximal isSubtype [] (taken types)) :=
      apart_collectMaximal List.Pairwise.nil _
    refine perm_singleton.mp ((perm_ext_iff_of_nodup (apart.nodup isSubtype_refl)
      (nodup_singleton _)).mpr fun member => ?_)
    rw [mem_singleton]
    exact ⟨alone member, fun same => same ▸ kept⟩
  rw [isSingle] at result
  refine .inr ⟨items, fun top => ?_, ?_⟩
  · rw [← mem_collected_iff dominated, isSingle, mem_singleton]
  · have isUnion : normalizeUnion types = .union items := result
    obtain ⟨several, special⟩ := items_of_normalizeUnion (isUnion ▸ canonical.settled)
    have apart := canonical.apart
    have flat := canonical.flat
    rw [isUnion] at apart flat
    exact ⟨several, apart, fun item mem => ⟨(special item mem).1, (special item mem).2, flat item mem⟩⟩

/-- Normal forms are canonical exactly for the inputs whose topmost members are above all and
are no unions. -/
theorem canonical_iff (types : List Ty) : Canonical types ↔ Normalizable types := by
  refine ⟨normalizable_of_canonical, fun normalizable => ?_⟩
  by_cases isTerm : Ty.term ∈ inputs types
  · exact canonical_of_term isTerm
  obtain ⟨dominated, plain | ⟨items, only, settled⟩⟩ := normalizable.resolve_left isTerm
  · exact canonical_of_plain isTerm dominated plain
  · exact canonical_of_settled isTerm dominated only settled

end canonical

/-- A union within a union within a union stays a member. -/
theorem canonical_nested : ¬ ∀ types : List Ty, Canonical types := by
  intro canonical
  have flat := (canonical [.union [.union [.int, .float], .atom]]).flat
  have result : normalizeUnion [.union [.union [.int, .float], .atom]] =
      .union [.union [.int, .float], .atom] := by
    decide +kernel
  rw [result] at flat
  exact flat (.union [.int, .float]) (by simp [unionMembers]) [.int, .float] rfl

end Terlan.Typeck
