/-
  Exactness of finite pattern subtraction.

  Stuck       : the values that a pattern matches in a place where the analysis neither decides
                nor splits the region; their region is kept.
  Subtraction : what remains of the regions is what the pattern does not match and what is stuck.
                The recursions are total: `covers` and `disjoint` by the sizes of pattern and type,
                `refine` by the size of the pattern, the loop by its budget.
-/
import Terlan.Typeck.Exhaustiveness

namespace Terlan.Typeck

open Terlan.Lib List

/-! ## Fields of tuples -/

mutual

/-- The types built from `Bool`, literal atoms, tuples and unions. -/
def isFiniteType : Ty → Bool
  | .bool => true
  | .literalAtom _ => true
  | .tuple items => areFiniteTypes items
  | .union items => areFiniteTypes items
  | _ => false

def areFiniteTypes : List Ty → Bool
  | [] => true
  | item :: items => isFiniteType item && areFiniteTypes items

end

theorem areFiniteTypes_iff {items : List Ty} :
    areFiniteTypes items = true ↔ ∀ item ∈ items, isFiniteType item = true := by
  induction items with
  | nil => simp [areFiniteTypes]
  | cons item items ih => simp [areFiniteTypes, ih]

theorem isFiniteType_union {items : List Ty} :
    isFiniteType (.union items) = true ↔ ∀ item ∈ items, isFiniteType item = true := by
  rw [isFiniteType, areFiniteTypes_iff]

theorem isFiniteType_tuple {items : List Ty} :
    isFiniteType (.tuple items) = true ↔ ∀ item ∈ items, isFiniteType item = true := by
  rw [isFiniteType, areFiniteTypes_iff]

theorem isCaseType_of_isFiniteType {ty : Ty} (h : isFiniteType ty = true) :
    isCaseType ty = true := by
  induction ty using isFiniteType.induct
    (motive_2 := fun items => areFiniteTypes items = true → areCaseTypes items = true) with
  | case1 | case2 => rfl
  | case3 items ih | case4 items ih => exact ih h
  | case5 => simp_all [isFiniteType]
  | case6 => rfl
  | case7 item items ihItem ihItems => simp_all [areFiniteTypes, areCaseTypes]

theorem forall₂_iff_at {α β : Type} {R : α → β → Prop} {as : List α} {bs : List β} :
    List.Forall₂ R as bs ↔ as.length = bs.length ∧
      ∀ (k : Nat) a b, as[k]? = some a → bs[k]? = some b → R a b := by
  rw [List.forall₂_iff_get]
  refine and_congr_right fun _ => ⟨fun h k a b ha hb => ?_, fun h k hk hk' =>
    h k _ _ (getElem?_eq_getElem hk) (getElem?_eq_getElem hk')⟩
  obtain ⟨hk, rfl⟩ := List.getElem?_eq_some_iff.mp ha
  obtain ⟨hk', rfl⟩ := List.getElem?_eq_some_iff.mp hb
  exact h k hk hk'

theorem inhabits_tuple_at {items : List Ty} {values : List RuntimeValue} :
    inhabits (.tuple items) (.tuple values) = true ↔ items.length = values.length ∧
      ∀ (k : Nat) item value, items[k]? = some item → values[k]? = some value →
        inhabits item value = true := by
  rw [inhabits, inhabitsAll_iff, forall₂_iff_at]

/-- The fields of a matched tuple are matched by the children for them. -/
theorem matchesValue_tuple_iff {pattern : SyntaxPatternOutput} {items : List Ty} {offset : Nat}
    {values : List RuntimeValue} (hnested : nestedPattern pattern = none)
    (hchildren : tupleChildren pattern items = some offset)
    (hin : inhabits (.tuple items) (.tuple values) = true) :
    matchesValue pattern (.tuple values) = true ↔
      ∀ (k : Nat) child value, pattern.children[k]? = some child →
        values[offset + k]? = some value → matchesValue child value = true := by
  obtain ⟨found, hfound, hitems⟩ := inhabits_tuple.mp hin
  cases hfound
  have hlength := tupleChildren_length hchildren
  have hvalues : pattern.children.length = (values.drop offset).length := by
    rw [hlength, length_drop, length_drop, hitems.length_eq]
  have hdrop : List.Forall₂ (fun child value => matchesValue child value = true) pattern.children
      (values.drop offset) ↔ ∀ (k : Nat) child value, pattern.children[k]? = some child →
        values[offset + k]? = some value → matchesValue child value = true := by
    simp [forall₂_iff_at, hvalues]
  rw [← hdrop]
  refine ⟨fun hmatch => ?_, matchesValue_tuple hchildren hnested hitems⟩
  obtain ⟨kind, text, children, fields⟩ := pattern
  unfold tupleChildren at hchildren
  split at hchildren
  · next hkind =>
    change kind = .tuple at hkind
    subst hkind
    split at hchildren
    · cases hchildren
      simpa [matchesValue, matchesAll_iff] using hmatch
    · cases hchildren
  · next hkind =>
    change kind = .constructor at hkind
    subst hkind
    split at hchildren
    · split at hchildren
      · cases hchildren
        have hplain := nested_constructor hnested
        cases hitems with
        | cons hhead hrest =>
          next value values =>
          cases value with
          | atom tag => 
            rw [matchesValue, hplain] at hmatch
            simp only [Bool.false_eq_true, if_false, Bool.and_eq_true, matchesAll_iff] at hmatch
            exact hmatch.2
          | _ => simp [inhabits] at hhead
      · cases hchildren
    · cases hchildren
  · cases hchildren

/-! ## Places where subtraction is stuck -/

/-- The pattern can match part of the type, and neither covers nor splits it. -/
def givesUp (pattern : SyntaxPatternOutput) (ty : Ty) : Bool :=
  match ty with
  | .bool => pattern.kind = .constructor
  | .literalAtom _ => isConstPattern pattern
  | .tuple items => pattern.kind = .constructor && (tupleChildren pattern items).isNone
  | .union items => items.length ≤ 1 && !covers pattern (.union items)
  | _ => false

/-- A value of the type that the pattern matches, where it reaches a place that gives up. -/
inductive Stuck : SyntaxPatternOutput → Ty → RuntimeValue → Prop where
  | nested {pattern child : SyntaxPatternOutput} {ty : Ty} {value : RuntimeValue}
      (hnested : nestedPattern pattern = some child) (hstuck : Stuck child ty value) :
      Stuck pattern ty value
  | member {pattern : SyntaxPatternOutput} {items : List Ty} {item : Ty} {value : RuntimeValue}
      (hnested : nestedPattern pattern = none) (hmany : 1 < items.length) (hitem : item ∈ items)
      (hstuck : Stuck pattern item value) : Stuck pattern (.union items) value
  | field {pattern child : SyntaxPatternOutput} {items : List Ty} {values : List RuntimeValue}
      {offset k : Nat} {item : Ty} {value : RuntimeValue}
      (hnested : nestedPattern pattern = none)
      (hchildren : tupleChildren pattern items = some offset)
      (hin : inhabits (.tuple items) (.tuple values) = true)
      (hmatch : matchesValue pattern (.tuple values) = true)
      (hchild : pattern.children[k]? = some child) (hitem : items[offset + k]? = some item)
      (hvalue : values[offset + k]? = some value) (hstuck : Stuck child item value) :
      Stuck pattern (.tuple items) (.tuple values)
  | leaf {pattern : SyntaxPatternOutput} {ty : Ty} {value : RuntimeValue}
      (hnested : nestedPattern pattern = none) (hgives : givesUp pattern ty = true)
      (hin : inhabits ty value = true) (hmatch : matchesValue pattern value = true) :
      Stuck pattern ty value

theorem Stuck.inhabits {pattern : SyntaxPatternOutput} {ty : Ty} {value : RuntimeValue}
    (h : Stuck pattern ty value) : inhabits ty value = true := by
  induction h with
  | nested _ _ ih => exact ih
  | member _ _ hitem _ ih => exact inhabits_union.mpr ⟨_, hitem, ih⟩
  | field _ _ hin | leaf _ _ hin => exact hin

theorem Stuck.matches {pattern : SyntaxPatternOutput} {ty : Ty} {value : RuntimeValue}
    (h : Stuck pattern ty value) : matchesValue pattern value = true := by
  induction h with
  | nested hnested _ ih => rwa [matchesValue_nested hnested]
  | member _ _ _ _ ih => exact ih
  | field _ _ _ hmatch | leaf _ _ _ hmatch => exact hmatch

section Inversion

variable {pattern : SyntaxPatternOutput} {value : RuntimeValue}

theorem stuck_nested {child : SyntaxPatternOutput} (hnested : nestedPattern pattern = some child)
    (ty : Ty) : Stuck pattern ty value ↔ Stuck child ty value := by
  refine ⟨fun h => ?_, .nested hnested⟩
  cases h with
  | nested hnested' h =>
    cases hnested.symm.trans hnested'
    exact h
  | member hnone | field hnone | leaf hnone => cases hnested.symm.trans hnone

theorem stuck_union (hnested : nestedPattern pattern = none) {items : List Ty}
    (hmany : 1 < items.length) :
    Stuck pattern (.union items) value ↔ ∃ item ∈ items, Stuck pattern item value := by
  constructor
  · intro h
    cases h with
    | nested hsome => cases hnested.symm.trans hsome
    | member _ _ hitem h => exact ⟨_, hitem, h⟩
    | leaf _ hgives =>
      simp only [givesUp, Bool.and_eq_true, decide_eq_true_eq] at hgives
      omega
  · rintro ⟨item, hitem, h⟩
    exact .member hnested hmany hitem h

theorem stuck_tuple (hnested : nestedPattern pattern = none) {items : List Ty} {offset : Nat}
    (hchildren : tupleChildren pattern items = some offset) {values : List RuntimeValue} :
    Stuck pattern (.tuple items) (.tuple values) ↔ inhabits (.tuple items) (.tuple values) = true ∧
      matchesValue pattern (.tuple values) = true ∧
      ∃ (k : Nat) (child : SyntaxPatternOutput) (item : Ty) (value : RuntimeValue),
        pattern.children[k]? = some child ∧ items[offset + k]? = some item ∧
        values[offset + k]? = some value ∧ Stuck child item value := by
  constructor
  · intro h
    cases h with
    | nested hsome => cases hnested.symm.trans hsome
    | field _ hchildren' hin hmatch hchild hitem hvalue h =>
      cases hchildren.symm.trans hchildren'
      exact ⟨hin, hmatch, _, _, _, _, hchild, hitem, hvalue, h⟩
    | leaf _ hgives => simp [givesUp, hchildren] at hgives
  · rintro ⟨hin, hmatch, k, child, item, value, hchild, hitem, hvalue, h⟩
    exact .field hnested hchildren hin hmatch hchild hitem hvalue h

/-! ## Leaves -/

theorem subsumes_catchAll (hkind : isCatchAll pattern.kind = true ∨ pattern.kind = .alias) (ty : Ty) :
    syntaxPatternSubsumesVariant pattern ty = true := by
  have hconst : isConstPattern pattern = false := by
    rcases hkind with hkind | hkind
    · cases hk : pattern.kind <;> simp_all [isCatchAll, isConstPattern]
    · simp [isConstPattern, hkind]
  unfold syntaxPatternSubsumesVariant
  rw [hconst]
  rcases hkind with hkind | hkind
  · cases hk : pattern.kind <;> simp_all [isCatchAll]
  · simp [hkind]

section

variable (hnested : nestedPattern pattern = none)
include hnested

theorem const_children (hconst : isConstPattern pattern = true) : pattern.children = [] := by
  unfold nestedPattern at hnested
  rwa [hconst, Bool.or_true, if_pos rfl, head?_eq_none_iff] at hnested

theorem subsumes_const (hconst : isConstPattern pattern = true) (ty : Ty) :
    syntaxPatternSubsumesVariant pattern ty = false := by
  have hchildren := const_children hnested hconst
  unfold syntaxPatternSubsumesVariant
  rw [if_pos hconst]
  split
  · next h => 
    rw [hchildren] at h
    cases h
  · rfl

theorem matchesValue_atom {name : String} (hmatch : matchesValue pattern (.atom name) = true) :
    (isCatchAll pattern.kind = true ∨ pattern.kind = .alias) ∨
      (pattern.kind = .atom ∧ pattern.text = some name) ∨
      (pattern.kind = .constructor ∧ pattern.children = [] ∧
        pattern.text.any (fun text => constructorPatternAtomName text = name) = true) := by
  obtain ⟨kind, text, children, fields⟩ := pattern
  cases kind with
  | constructor =>
    have hplain := nested_constructor hnested
    rw [matchesValue, hplain] at hmatch
    simpa [isCatchAll] using hmatch
  | _ => simp_all [matchesValue, isCatchAll]

theorem matchesValue_tupleKinds
    {values : List RuntimeValue} (hmatch : matchesValue pattern (.tuple values) = true) :
    (isCatchAll pattern.kind = true ∨ pattern.kind = .alias) ∨
      (pattern.kind = .tuple ∧ pattern.children.length = values.length) ∨
      pattern.kind = .constructor := by
  obtain ⟨kind, text, children, fields⟩ := pattern
  cases kind with
  | tuple =>
    rw [matchesValue, matchesAll_iff] at hmatch
    exact .inr (.inl ⟨rfl, hmatch.length_eq⟩)
  | _ => simp_all [matchesValue, isCatchAll]

/-- A place that gives up is not covered. -/
theorem covers_givesUp {ty : Ty}
    (hgives : givesUp pattern ty = true) : covers pattern ty = false := by
  have hleaf : ∀ {ty}, (∀ items, ty ≠ .union items) →
      (∀ items, ty = .tuple items → tupleChildren pattern items = none) →
      syntaxPatternSubsumesVariant pattern ty = false → covers pattern ty = false :=
    fun hunion htuple hsub => (covers_leaf hnested hunion htuple).trans hsub
  cases ty with
  | bool =>
    refine hleaf (fun _ h => by cases h) (fun _ h => by cases h) ?_
    have hkind : pattern.kind = .constructor := by simpa [givesUp] using hgives
    cases hconst : isConstPattern pattern with
    | true => exact subsumes_const hnested hconst _
    | false =>
      unfold syntaxPatternSubsumesVariant
      simp [hconst, hkind]
  | literalAtom payload =>
    exact hleaf (fun _ h => by cases h) (fun _ h => by cases h)
      (subsumes_const hnested hgives _)
  | tuple items =>
    simp only [givesUp, Bool.and_eq_true, decide_eq_true_eq, Option.isNone_iff_eq_none] at hgives
    obtain ⟨hkind, hchildren⟩ := hgives
    refine hleaf (fun _ h => by cases h) (fun _ h => by cases h; exact hchildren) ?_
    cases hconst : isConstPattern pattern with
    | true => exact subsumes_const hnested hconst _
    | false =>
      rw [Bool.eq_false_iff]
      intro hsub
      unfold syntaxPatternSubsumesVariant at hsub
      rw [hconst] at hsub
      split at hsub
      · next h => cases h
      split at hsub
      case h_16 hitems =>
        cases hitems
        simp only [Bool.and_eq_true, Option.any_eq_true, decide_eq_true_eq] at hsub
        obtain ⟨⟨⟨name, htext, rfl⟩, hlength⟩, -⟩ := hsub
        simp [tupleChildren, hkind, htext, hlength] at hchildren
      all_goals simp_all
  | union items =>
    simp only [givesUp, Bool.and_eq_true, Bool.not_eq_true'] at hgives
    exact hgives.2
  | _ => simp [givesUp] at hgives

end

end Inversion

theorem mem_zip_drop {α β : Type} {as : List α} {bs : List β} {offset : Nat} {a : α} {b : β} :
    (a, b) ∈ as.zip (bs.drop offset) ↔ ∃ k : Nat, as[k]? = some a ∧ bs[offset + k]? = some b := by
  simp [mem_iff_getElem?, getElem?_zip_eq_some]

/-- A field of a tuple has its value. -/
theorem field_value {items : List Ty} {values : List RuntimeValue}
    (hin : inhabits (.tuple items) (.tuple values) = true) {k : Nat} {item : Ty}
    (hitem : items[k]? = some item) :
    ∃ value, values[k]? = some value ∧ inhabits item value = true := by
  obtain ⟨hlength, hfields⟩ := inhabits_tuple_at.mp hin
  obtain ⟨hlt, -⟩ := List.getElem?_eq_some_iff.mp hitem
  have hvalues : k < values.length := hlength ▸ hlt
  have hvalue : values[k]? = some values[k] := getElem?_eq_getElem hvalues
  exact ⟨values[k], hvalue, hfields k item _ hitem hvalue⟩

/-- A covered region holds no stuck value. -/
theorem not_stuck_of_covers {pattern : SyntaxPatternOutput} {ty : Ty} {value : RuntimeValue}
    (hcovers : covers pattern ty = true) : ¬ Stuck pattern ty value := by
  intro h
  induction h with
  | nested hnested _ ih => exact ih (covers_nested hnested _ ▸ hcovers)
  | member hnested _ hitem _ ih => exact ih ((covers_union hnested _).mp hcovers _ hitem)
  | field hnested hchildren _ _ hchild hitem _ _ ih =>
    exact ih ((covers_tuple hnested hchildren).mp hcovers _ _ (mem_zip_drop.mpr ⟨_, hchild, hitem⟩))
  | leaf hnested hgives =>
    rw [covers_givesUp hnested hgives] at hcovers
    cases hcovers

theorem disjoint_nested {pattern child : SyntaxPatternOutput}
    (h : nestedPattern pattern = some child) (ty : Ty) :
    disjoint pattern ty = disjoint child ty := by
  rw [disjoint.eq_def]
  split
  · next h' => rw [Option.some.inj (h.symm.trans h')]
  · next h' => cases h.symm.trans h'

theorem disjoint_atom {pattern : SyntaxPatternOutput} (hnested : nestedPattern pattern = none)
    (hkind : pattern.kind = .atom) (payload : String) :
    disjoint pattern (.literalAtom payload) = true ↔
      ∃ text, pattern.text = some text ∧ text ≠ payload := by
  rw [disjoint.eq_def]
  split
  · next h => cases hnested.symm.trans h
  · simp [hkind, Option.any_eq_true]

theorem disjoint_constructor {pattern : SyntaxPatternOutput}
    (hnested : nestedPattern pattern = none)
    (hkind : pattern.kind = .constructor ∧ pattern.children.isEmpty = true) (payload : String) :
    disjoint pattern (.literalAtom payload) = true ↔
      syntaxPatternSubsumesVariant pattern (.literalAtom payload) = false := by
  rw [disjoint.eq_def]
  split
  · next h => cases hnested.symm.trans h
  · simp [hkind]

theorem disjoint_tuple {pattern : SyntaxPatternOutput} (hnested : nestedPattern pattern = none)
    {items : List Ty} {offset : Nat} (hchildren : tupleChildren pattern items = some offset) :
    disjoint pattern (.tuple items) = true ↔
      ∃ child item, (child, item) ∈ pattern.children.zip (items.drop offset) ∧
        disjoint child item = true := by
  rw [disjoint.eq_def]
  split
  · next h => cases hnested.symm.trans h
  · simp [hchildren]

theorem disjoint_union {pattern : SyntaxPatternOutput} (hnested : nestedPattern pattern = none)
    (items : List Ty) :
    disjoint pattern (.union items) = true ↔ ∀ item ∈ items, disjoint pattern item = true := by
  rw [disjoint.eq_def]
  split
  · next h => cases hnested.symm.trans h
  · simp

/-- A value that is stuck in a member of a union is stuck in the union. -/
theorem stuck_member {pattern : SyntaxPatternOutput} {items : List Ty} {item : Ty}
    {value : RuntimeValue} (hnested : nestedPattern pattern = none) (hitem : item ∈ items)
    (hstuck : Stuck pattern item value) : Stuck pattern (.union items) value := by
  by_cases hmany : 1 < items.length
  · exact .member hnested hmany hitem hstuck
  refine .leaf hnested ?_ (inhabits_union.mpr ⟨item, hitem, hstuck.inhabits⟩) hstuck.matches
  have hcovers : covers pattern (.union items) = false := Bool.eq_false_iff.mpr fun hcovers =>
    not_stuck_of_covers ((covers_union hnested items).mp hcovers item hitem) hstuck
  simp [givesUp, hcovers]
  omega

/-- A matched field that is stuck leaves its tuple stuck. -/
theorem stuck_field {pattern child : SyntaxPatternOutput} {items : List Ty}
    {values : List RuntimeValue} {offset k : Nat} {item : Ty}
    (hnested : nestedPattern pattern = none) (hchildren : tupleChildren pattern items = some offset)
    (hin : inhabits (.tuple items) (.tuple values) = true)
    (hmatch : matchesValue pattern (.tuple values) = true)
    (hchild : pattern.children[k]? = some child) (hitem : items[offset + k]? = some item)
    (hstuck : ∀ value, inhabits item value = true → matchesValue child value = true →
      Stuck child item value) : Stuck pattern (.tuple items) (.tuple values) := by
  obtain ⟨value, hvalue, hfield⟩ := field_value hin hitem
  have hmatched := (matchesValue_tuple_iff hnested hchildren hin).mp hmatch k child value hchild hvalue
  exact .field hnested hchildren hin hmatch hchild hitem hvalue (hstuck value hfield hmatched)

/-- A value of a region that is called disjoint from the pattern is matched only where the
analysis is stuck. -/
theorem stuck_of_disjoint {pattern : SyntaxPatternOutput} {ty : Ty} {value : RuntimeValue}
    (hdisjoint : disjoint pattern ty = true) (hin : inhabits ty value = true)
    (hmatch : matchesValue pattern value = true) : Stuck pattern ty value := by
  induction pattern, ty using disjoint.induct generalizing value with
  | case1 pattern ty child hnested ih =>
    rw [disjoint_nested hnested] at hdisjoint
    rw [matchesValue_nested hnested] at hmatch
    exact .nested hnested (ih hdisjoint hin hmatch)
  | case2 pattern hnested payload hkind =>
    obtain ⟨text, htext, hne⟩ := (disjoint_atom hnested hkind payload).mp hdisjoint
    cases value with
    | atom name =>
      obtain rfl : name = payload := by simpa [inhabits] using hin
      rcases matchesValue_atom hnested hmatch with hcatch | ⟨-, hname⟩ | ⟨hconstructor, -⟩
      · simp [hkind, isCatchAll] at hcatch
      · exact absurd (Option.some.inj (htext.symm.trans hname)) hne
      · cases hkind.symm.trans hconstructor
    | _ => simp [inhabits] at hin
  | case3 pattern hnested payload hkind hconstructor =>
    have hsub := (disjoint_constructor hnested hconstructor payload).mp hdisjoint
    cases value with
    | atom name =>
      obtain rfl : name = payload := by simpa [inhabits] using hin
      rcases matchesValue_atom hnested hmatch with hcatch | ⟨hatom, -⟩ | ⟨-, hchildren, htext⟩
      · simp [hconstructor.1, isCatchAll] at hcatch
      · exact absurd hatom hkind
      refine .leaf hnested ?_ hin hmatch
      by_contra hconst
      unfold syntaxPatternSubsumesVariant at hsub
      simp_all [givesUp]
    | _ => simp [inhabits] at hin
  | case5 pattern hnested items offset hchildren ih =>
    obtain ⟨values, rfl, -⟩ := inhabits_tuple.mp hin
    obtain ⟨child, item, hmem, hfield⟩ := (disjoint_tuple hnested hchildren).mp hdisjoint
    obtain ⟨k, hchild, hitem⟩ := mem_zip_drop.mp hmem
    exact stuck_field hnested hchildren hin hmatch hchild hitem fun value => ih child item hmem hfield
  | case7 pattern hnested items ih =>
    obtain ⟨item, hitem, hin⟩ := inhabits_union.mp hin
    have hmember := (disjoint_union hnested items).mp hdisjoint item hitem
    exact stuck_member hnested hitem (ih item hitem hmember hin hmatch)
  | case4 | case6 | case8 =>
    exfalso
    unfold disjoint at hdisjoint
    split at hdisjoint
    · simp_all
    · simp_all

/-! ## Refinement -/

theorem refineFields_none {children : List SyntaxPatternOutput} {items : List Ty} {depth : Nat}
    (h : refineFields children items depth = .ok none) {k : Nat} {child : SyntaxPatternOutput}
    {item : Ty} (hchild : children[k]? = some child) (hitem : items[k]? = some item) :
    refine child item depth = .ok none := by
  induction children generalizing items k with
  | nil => simp at hchild
  | cons first children ih =>
    cases items with
    | nil => simp at hitem
    | cons head items =>
      unfold refineFields at h
      obtain ⟨split, hsplit, h⟩ := except_bind_ok_iff.mp h
      cases split with
      | some split => cases h
      | none =>
        obtain ⟨rest, hrest, hreturn⟩ := except_bind_ok_iff.mp h
        cases rest with
        | some rest => cases hreturn
        | none =>
          cases k with
          | zero =>
            cases hchild
            cases hitem
            exact hsplit
          | succ k => exact ih hrest hchild hitem

theorem refineFields_some {children : List SyntaxPatternOutput} {items left right : List Ty}
    {depth : Nat} (h : refineFields children items depth = .ok (some (left, right))) :
    ∃ (k : Nat) (child : SyntaxPatternOutput) (item x y : Ty), children[k]? = some child ∧
      items[k]? = some item ∧ left = items.set k x ∧ right = items.set k y ∧
      refine child item depth = .ok (some (x, y)) := by
  induction children generalizing items left right with
  | nil => simp [refineFields] at h
  | cons first children ih =>
    cases items with
    | nil => simp [refineFields] at h
    | cons head items =>
      unfold refineFields at h
      obtain ⟨split, hsplit, h⟩ := except_bind_ok_iff.mp h
      cases split with
      | some split =>
        cases h
        exact ⟨0, first, head, _, _, rfl, rfl, rfl, rfl, hsplit⟩
      | none =>
        obtain ⟨rest, hrest, hreturn⟩ := except_bind_ok_iff.mp h
        cases rest with
        | none => cases hreturn
        | some rest =>
          cases hreturn
          obtain ⟨k, child, item, x, y, hchild, hitem, hleft, hright, hrefine⟩ := ih hrest
          exact ⟨k + 1, child, item, x, y, hchild, hitem, by simp [hleft],
            by simp [hright], hrefine⟩

theorem tupleChildren_set {pattern : SyntaxPatternOutput} {items : List Ty} {offset : Nat}
    (h : tupleChildren pattern items = some offset) (k : Nat) (x : Ty) :
    tupleChildren pattern (items.set (offset + k) x) = some offset := by
  unfold tupleChildren at h ⊢
  split at h
  · split at h
    · next hlength =>
      cases h
      simp [hlength]
    · cases h
  · split at h
    · next head rest name htext =>
      split at h
      · next hname =>
        cases h
        have hset : (Ty.literalAtom head :: rest).set (1 + k) x =
            .literalAtom head :: rest.set k x := by rw [Nat.add_comm]; rfl
        rw [hset, htext]
        simpa using hname
      · cases h
    · cases h
  · cases h

theorem inhabits_set {items : List Ty} {values : List RuntimeValue} {k : Nat} {x : Ty}
    {value : RuntimeValue} (hin : inhabits (.tuple items) (.tuple values) = true)
    (hvalue : values[k]? = some value) (hx : inhabits x value = true) :
    inhabits (.tuple (items.set k x)) (.tuple values) = true := by
  obtain ⟨hlength, hfields⟩ := inhabits_tuple_at.mp hin
  refine inhabits_tuple_at.mpr ⟨by simpa using hlength, fun j item other hitem hother => ?_⟩
  by_cases hj : k = j
  · subst hj
    rw [getElem?_set_self' ] at hitem
    cases hvalue.symm.trans hother
    cases hk : items[k]? with
    | none => simp [hk] at hitem
    | some old =>
      rw [hk] at hitem
      cases hitem
      exact hx
  · rw [getElem?_set_ne hj] at hitem
    exact hfields j item other hitem hother

section

variable {pattern : SyntaxPatternOutput} (hnested : nestedPattern pattern = none)
include hnested

theorem stuck_bool {value : RuntimeValue} (hcovers : covers pattern .bool = false)
    (hatom : pattern.kind = .atom → ¬ (pattern.text = some "true" ∨ pattern.text = some "false"))
    (hin : inhabits .bool value = true) (hmatch : matchesValue pattern value = true) :
    Stuck pattern .bool value := by
  rw [covers_leaf hnested (fun _ h => by cases h) (fun _ h => by cases h)] at hcovers
  cases value with
  | atom name =>
    rcases matchesValue_atom hnested hmatch with hcatch | ⟨hkind, htext⟩ | ⟨hkind, -⟩
    · rw [subsumes_catchAll hcatch] at hcovers
      cases hcovers
    · have hname : name = "true" ∨ name = "false" := by simpa [inhabits] using hin
      exact absurd (by simpa [htext] using hname) (hatom hkind)
    · exact .leaf hnested (by simp [givesUp, hkind]) hin hmatch
  | _ => simp [inhabits] at hin

theorem stuck_product {items : List Ty} {values : List RuntimeValue}
    (hcovers : covers pattern (.tuple items) = false)
    (hchildren : tupleChildren pattern items = none)
    (hin : inhabits (.tuple items) (.tuple values) = true)
    (hmatch : matchesValue pattern (.tuple values) = true) :
    Stuck pattern (.tuple items) (.tuple values) := by
  rw [covers_leaf hnested (fun _ h => by cases h) (fun _ h => by cases h; exact hchildren)]
    at hcovers
  rcases matchesValue_tupleKinds hnested hmatch with hcatch | ⟨hkind, hlength⟩ | hkind
  · rw [subsumes_catchAll hcatch] at hcovers
    cases hcovers
  · have hitems := (inhabits_tuple_at.mp hin).1
    simp [tupleChildren, hkind, hlength, hitems] at hchildren
  · exact .leaf hnested (by simp [givesUp, hkind, hchildren]) hin hmatch

theorem stuck_literalAtom {payload : String} {value : RuntimeValue}
    (hcovers : covers pattern (.literalAtom payload) = false)
    (hin : inhabits (.literalAtom payload) value = true)
    (hmatch : matchesValue pattern value = true) : Stuck pattern (.literalAtom payload) value := by
  rw [covers_leaf hnested (fun _ h => by cases h) (fun _ h => by cases h)] at hcovers
  cases value with
  | atom name =>
    obtain rfl : name = payload := by simpa [inhabits] using hin
    refine .leaf hnested ?_ hin hmatch
    by_contra hconst
    have hplain : isConstPattern pattern = false := by simpa [givesUp] using hconst
    rcases matchesValue_atom hnested hmatch with hcatch | ⟨hkind, htext⟩ | ⟨hkind, hchildren, htext⟩
    · rw [subsumes_catchAll hcatch] at hcovers
      cases hcovers
    all_goals
      unfold syntaxPatternSubsumesVariant at hcovers
      simp_all
  | _ => simp [inhabits] at hin

/-- A union of one member is kept whole. -/
theorem stuck_single {items : List Ty} {value : RuntimeValue}
    (hcovers : covers pattern (.union items) = false)
    (hsingle : items.length ≤ 1) (hin : inhabits (.union items) value = true)
    (hmatch : matchesValue pattern value = true) : Stuck pattern (.union items) value :=
  .leaf hnested (by simp [givesUp, hcovers, hsingle]) hin hmatch

end

/-- A region that a pattern neither covers nor refines keeps matched values as stuck ones. -/
theorem stuck_of_unrefined {pattern : SyntaxPatternOutput} {ty : Ty} {depth : Nat}
    {value : RuntimeValue} (hrefine : refine pattern ty depth = .ok none)
    (hcovers : covers pattern ty = false) (hfinite : isFiniteType ty = true)
    (hin : inhabits ty value = true) (hmatch : matchesValue pattern value = true) :
    Stuck pattern ty value := by
  unfold refine at hrefine
  split at hrefine
  · cases hrefine
  split at hrefine
  · next child hnested =>
    have := sizeOf_nestedPattern hnested
    rw [covers_nested hnested] at hcovers
    rw [matchesValue_nested hnested] at hmatch
    exact .nested hnested (stuck_of_unrefined hrefine hcovers hfinite hin hmatch)
  · next hnested =>
    split at hrefine
    · next hdisjoint => exact stuck_of_disjoint hdisjoint hin hmatch
    split at hrefine
    · split at hrefine
      · cases hrefine
      · next hatom =>
        exact stuck_bool hnested hcovers (fun hkind htext => hatom ⟨hkind, htext⟩) hin hmatch
    · cases hrefine
    · cases hrefine
    · next items hdisjoint =>
      obtain ⟨values, rfl, -⟩ := inhabits_tuple.mp hin
      split at hrefine
      · next offset hchildren =>
        obtain ⟨split, hsplit, hreturn⟩ := except_bind_ok_iff.mp hrefine
        cases split with
        | some split => cases hreturn
        | none =>
          have hsize := sizeOf_children pattern
          have huncovered := mt (covers_tuple hnested hchildren).mpr (Bool.eq_false_iff.mp hcovers)
          push Not at huncovered
          obtain ⟨child, item, hmem, hchild⟩ := huncovered
          obtain ⟨k, hk, hitem⟩ := mem_zip_drop.mp hmem
          refine stuck_field hnested hchildren hin hmatch hk hitem fun value hin hmatch => ?_
          have := sizeOf_child (mem_of_getElem? hk)
          exact stuck_of_unrefined (refineFields_none hsplit hk (by simpa using hitem))
            (Bool.eq_false_iff.mpr hchild)
            (isFiniteType_tuple.mp hfinite item (mem_of_getElem? hitem)) hin hmatch
      · next hchildren => exact stuck_product hnested hcovers hchildren hin hmatch
    · next _ hbool _ hmany htuple =>
      cases ty with
      | literalAtom payload => exact stuck_literalAtom hnested hcovers hin hmatch
      | union items =>
        refine stuck_single hnested hcovers ?_ hin hmatch
        rcases items with _ | ⟨first, _ | ⟨second, rest⟩⟩
        · simp
        · simp
        · exact (hmany first second rest rfl).elim
      | bool => exact (hbool rfl).elim
      | tuple items => exact (htuple items rfl).elim
      | _ => simp [isFiniteType] at hfinite
termination_by sizeOf pattern

theorem not_stuck_atom {pattern : SyntaxPatternOutput} (hnested : nestedPattern pattern = none)
    (hkind : pattern.kind = .atom) {ty : Ty} (hty : ty = .bool ∨ ∃ payload, ty = .literalAtom payload)
    {value : RuntimeValue} : ¬ Stuck pattern ty value := by
  intro h
  cases h with
  | nested hsome => cases hnested.symm.trans hsome
  | member | field => simp at hty
  | leaf _ hgives =>
    rcases hty with rfl | ⟨payload, rfl⟩ <;> simp [givesUp, isConstPattern, hkind] at hgives

/-- A field other than the `k`-th is stuck. -/
def OtherStuck (pattern : SyntaxPatternOutput) (items : List Ty) (values : List RuntimeValue)
    (offset k : Nat) : Prop :=
  ∃ (j : Nat) (child : SyntaxPatternOutput) (item : Ty) (value : RuntimeValue), j ≠ k ∧
    pattern.children[j]? = some child ∧ items[offset + j]? = some item ∧
    values[offset + j]? = some value ∧ Stuck child item value

section Split

variable {pattern child : SyntaxPatternOutput} {items : List Ty} {offset k : Nat} {item : Ty}
variable {values : List RuntimeValue} {value : RuntimeValue}

theorem otherStuck_set (z : Ty) : OtherStuck pattern (items.set (offset + k) z) values offset k ↔
      OtherStuck pattern items values offset k := by
  unfold OtherStuck
  refine exists_congr fun j => exists_congr fun _ => exists_congr fun _ => exists_congr fun _ => ?_
  refine and_congr_right fun hj => ?_
  rw [getElem?_set_ne (by omega)]

/-- A tuple is stuck in the `k`-th field or in another one. -/
theorem stuck_tuple_at (hnested : nestedPattern pattern = none)
    (hchildren : tupleChildren pattern items = some offset)
    (hchild : pattern.children[k]? = some child) (hitem : items[offset + k]? = some item)
    (hvalue : values[offset + k]? = some value) : Stuck pattern (.tuple items) (.tuple values) ↔
      inhabits (.tuple items) (.tuple values) = true ∧ matchesValue pattern (.tuple values) = true ∧
      (Stuck child item value ∨ OtherStuck pattern items values offset k) := by
  rw [stuck_tuple hnested hchildren]
  refine and_congr_right fun _ => and_congr_right fun _ => ?_
  constructor
  · rintro ⟨j, other, ty, field, hother, hty, hfield, h⟩
    by_cases hj : j = k
    · subst hj
      cases hchild.symm.trans hother
      cases hitem.symm.trans hty
      cases hvalue.symm.trans hfield
      exact .inl h
    · exact .inr ⟨j, other, ty, field, hj, hother, hty, hfield, h⟩
  · rintro (h | ⟨j, other, ty, field, -, hother, hty, hfield, h⟩)
    · exact ⟨k, child, item, value, hchild, hitem, hvalue, h⟩
    · exact ⟨j, other, ty, field, hother, hty, hfield, h⟩

theorem getElem?_set_of_some {x : Ty} (hitem : items[k]? = some item) :
    (items.set k x)[k]? = some x := by
  rw [getElem?_set_self']
  simp [hitem]

theorem inhabits_of_set {x : Ty} (hitem : items[k]? = some item)
    (hsub : ∀ value, inhabits x value = true → inhabits item value = true)
    (hin : inhabits (.tuple (items.set k x)) (.tuple values) = true) :
    inhabits (.tuple items) (.tuple values) = true := by
  obtain ⟨value, hvalue, hx⟩ := field_value hin (getElem?_set_of_some hitem)
  have hback := inhabits_set hin hvalue (hsub value hx)
  obtain ⟨hlt, rfl⟩ := List.getElem?_eq_some_iff.mp hitem
  rwa [set_set, set_getElem_self] at hback

/-- Where one field is split, the stuck values of a tuple are those of its halves. -/
theorem stuck_split {x y : Ty} (hnested : nestedPattern pattern = none)
    (hchildren : tupleChildren pattern items = some offset)
    (hchild : pattern.children[k]? = some child) (hitem : items[offset + k]? = some item)
    (hsplits : Splits item x y)
    (hstuck : ∀ value, Stuck child item value ↔ Stuck child x value ∨ Stuck child y value) :
    Stuck pattern (.tuple items) (.tuple values) ↔
      Stuck pattern (.tuple (items.set (offset + k) x)) (.tuple values) ∨
        Stuck pattern (.tuple (items.set (offset + k) y)) (.tuple values) := by
  by_cases hin : inhabits (.tuple items) (.tuple values) = true
  · obtain ⟨value, hvalue, hfield⟩ := field_value hin hitem
    have hset : ∀ z, tupleChildren pattern (items.set (offset + k) z) = some offset :=
      tupleChildren_set hchildren k
    have hhalf : ∀ z, inhabits z value = true →
        inhabits (.tuple (items.set (offset + k) z)) (.tuple values) = true :=
      fun z => inhabits_set hin hvalue
    rw [stuck_tuple_at hnested hchildren hchild hitem hvalue,
      stuck_tuple_at hnested (hset x) hchild (getElem?_set_of_some hitem) hvalue,
      stuck_tuple_at hnested (hset y) hchild (getElem?_set_of_some hitem) hvalue,
      otherStuck_set, otherStuck_set, hstuck value]
    have hx : Stuck child x value → _ := fun h => hhalf x h.inhabits
    have hy : Stuck child y value → _ := fun h => hhalf y h.inhabits
    have hcovered := (hsplits.covered value hfield).imp (hhalf x) (hhalf y)
    tauto
  · have hleft := mt (inhabits_of_set hitem fun _ => hsplits.leftRegion.inhabits) hin
    have hright := mt (inhabits_of_set hitem fun _ => hsplits.rightRegion.inhabits) hin
    refine iff_of_false (fun h => hin h.inhabits) ?_
    rintro (h | h)
    · exact hleft h.inhabits
    · exact hright h.inhabits

end Split

theorem set_take_drop (items : List Ty) (offset k : Nat) (x : Ty) :
    items.set (offset + k) x = items.take offset ++ (items.drop offset).set k x := by
  rw [set_drop, ← @take_set_of_le _ x (offset + k) offset items (Nat.le_add_right _ _),
    take_append_drop]

/-- Refinement keeps the stuck values. -/
theorem stuck_refined {pattern : SyntaxPatternOutput} {ty left right : Ty} {depth : Nat}
    (hrefine : refine pattern ty depth = .ok (some (left, right))) (value : RuntimeValue) :
    Stuck pattern ty value ↔ Stuck pattern left value ∨ Stuck pattern right value := by
  unfold refine at hrefine
  split at hrefine
  · cases hrefine
  split at hrefine
  · next child hnested =>
    have := sizeOf_nestedPattern hnested
    simp only [stuck_nested hnested]
    exact stuck_refined hrefine value
  · next hnested =>
    split at hrefine
    · cases hrefine
    split at hrefine
    · split at hrefine
      · next hatom =>
        cases hrefine
        refine iff_of_false (not_stuck_atom hnested hatom.1 (.inl rfl)) ?_
        rintro (h | h)
        · exact not_stuck_atom hnested hatom.1 (.inr ⟨_, rfl⟩) h
        · exact not_stuck_atom hnested hatom.1 (.inr ⟨_, rfl⟩) h
      · cases hrefine
    · cases hrefine
      simp [stuck_union hnested]
    · next hrest _ =>
      cases hrefine
      rw [stuck_union hnested (by simp), stuck_union hnested (by
        rw [length_cons]
        exact Nat.succ_lt_succ (length_pos_iff.mpr hrest))]
      simp
    · next items hdisjoint =>
      split at hrefine
      · next offset hchildren =>
        obtain ⟨split, hsplit, hreturn⟩ := except_bind_ok_iff.mp hrefine
        cases split with
        | none => cases hreturn
        | some split =>
          cases hreturn
          obtain ⟨k, child, item, x, y, hchild, hitem, hleft, hright, hfield⟩ :=
            refineFields_some hsplit
          have := sizeOf_children pattern
          have := sizeOf_child (mem_of_getElem? hchild)
          rw [hleft, hright, ← set_take_drop, ← set_take_drop]
          by_cases htuple : ∃ values, value = .tuple values
          · obtain ⟨values, rfl⟩ := htuple
            exact stuck_split hnested hchildren hchild (by simpa using hitem)
              (refine_splits hfield) fun value => stuck_refined hfield value
          · have hnone : ∀ items, ¬ Stuck pattern (.tuple items) value := fun items h =>
              htuple ((inhabits_tuple.mp h.inhabits).imp fun _ => And.left)
            simp [hnone]
      · cases hrefine
    · cases hrefine
termination_by sizeOf pattern

/-! ## Subtraction -/

theorem Region.isFiniteType {a b : Ty} (h : Region a b) :
    isFiniteType b = true → isFiniteType a = true :=
  h.inherit (fun _ => rfl) (fun _ => isFiniteType_union) fun _ => isFiniteType_tuple

/-- On finite types no pattern is credited with more than it matches. -/
theorem overclaims_finite {pattern : SyntaxPatternOutput} {ty : Ty} (h : isFiniteType ty = true) :
    overclaims pattern ty = false := by
  induction pattern, ty using overclaims.induct with
  | case1 pattern ty child hnested ih =>
    rw [overclaims_nested hnested]
    exact ih h
  | case5 pattern hnested items ih =>
    exact (overclaims_union hnested items).mpr fun item hitem =>
      ih item hitem (isFiniteType_union.mp h item hitem)
  | case6 pattern hnested items offset hchildren ih =>
    exact (overclaims_tuple hnested hchildren).mpr fun child item hmem =>
      ih child item hmem
        (isFiniteType_tuple.mp h item (mem_of_mem_drop (of_mem_zip hmem).2))
  | case7 pattern hnested items hchildren =>
    unfold overclaims
    split
    · next hsome => cases hnested.symm.trans hsome
    · simp [hchildren]
  | case8 pattern ty hnested =>
    unfold overclaims
    split
    · next hsome => cases hnested.symm.trans hsome
    · cases ty <;> simp_all
  | case2 | case3 | case4 => simp [isFiniteType] at h

/-- The value is in the region, and subtracting the pattern keeps it. -/
def Kept (pattern : SyntaxPatternOutput) (ty : Ty) (value : RuntimeValue) : Prop :=
  inhabits ty value = true ∧ (matchesValue pattern value = false ∨ Stuck pattern ty value)

section Kept

variable {pattern : SyntaxPatternOutput} {ty : Ty} {value : RuntimeValue}

theorem not_kept_of_covers (hcovers : covers pattern ty = true) (hfinite : isFiniteType ty = true) :
    ¬ Kept pattern ty value := by
  rintro ⟨hin, hmatch | hstuck⟩
  · rw [matchesValue_of_covers hcovers (overclaims_finite hfinite)
      (isCaseType_of_isFiniteType hfinite) hin] at hmatch
    cases hmatch
  · exact not_stuck_of_covers hcovers hstuck

theorem kept_of_unrefined {depth : Nat} (hrefine : refine pattern ty depth = .ok none)
    (hcovers : covers pattern ty = false) (hfinite : isFiniteType ty = true) :
    Kept pattern ty value ↔ inhabits ty value = true := by
  refine ⟨And.left, fun hin => ⟨hin, ?_⟩⟩
  cases hmatch : matchesValue pattern value with
  | false => exact .inl rfl
  | true => exact .inr (stuck_of_unrefined hrefine hcovers hfinite hin hmatch)

theorem kept_refined {left right : Ty} {depth : Nat}
    (hrefine : refine pattern ty depth = .ok (some (left, right))) :
    Kept pattern ty value ↔ Kept pattern left value ∨ Kept pattern right value := by
  have hsplits := refine_splits hrefine
  have hin : inhabits ty value = true ↔ inhabits left value = true ∨ inhabits right value = true :=
    ⟨hsplits.covered value, fun h => h.elim hsplits.leftRegion.inhabits hsplits.rightRegion.inhabits⟩
  have hleft : Stuck pattern left value → inhabits left value = true := Stuck.inhabits
  have hright : Stuck pattern right value → inhabits right value = true := Stuck.inhabits
  unfold Kept
  rw [hin, stuck_refined hrefine value]
  tauto

end Kept

/-- What the loop returns holds what it has put out and what subtraction keeps of the rest. -/
theorem subtractFrom_remains {pattern : SyntaxPatternOutput} {budget : Nat}
    {pending output rest : List Ty} (h : subtractFrom pattern budget pending output = .ok rest)
    (hfinite : ∀ region ∈ pending, isFiniteType region = true) (value : RuntimeValue) :
    Remains rest value ↔ Remains output value ∨ ∃ region ∈ pending, Kept pattern region value := by
  induction budget generalizing pending output with
  | zero =>
    cases pending with
    | nil =>
      cases h
      simp
    | cons => cases h
  | succ budget ih =>
    cases pending with
    | nil =>
      cases h
      simp
    | cons region pending =>
      have hregion := hfinite region mem_cons_self
      have hpending : ∀ region ∈ pending, isFiniteType region = true :=
        fun other hother => hfinite other (mem_cons_of_mem _ hother)
      rw [exists_mem_cons_iff]
      unfold subtractFrom at h
      split at h
      · cases h
      split at h
      · next hcovers =>
        rw [ih h hpending]
        simp [not_kept_of_covers hcovers hregion]
      next hcovers =>
      obtain ⟨split, hsplit, hnext⟩ := except_bind_ok_iff.mp h
      cases split with
      | none =>
        rw [ih hnext hpending, remains_append,
          kept_of_unrefined hsplit (Bool.eq_false_iff.mpr hcovers) hregion, or_assoc]
        simp [Remains]
      | some split =>
        have hsplits := refine_splits hsplit
        rw [ih hnext fun other hother => ?_, kept_refined hsplit,
          exists_mem_cons_iff, exists_mem_cons_iff, or_assoc]
        rcases mem_cons.mp hother with rfl | hother
        · exact hsplits.leftRegion.isFiniteType hregion
        · rcases mem_cons.mp hother with rfl | hother
          · exact hsplits.rightRegion.isFiniteType hregion
          · exact hpending other hother

/-- The regions that are left denote the values of the given ones that the pattern does not
match. -/
def Subtracts (remaining : List Ty) (pattern : SyntaxPatternOutput) (rest : List Ty) : Prop :=
  ∀ value, Remains rest value ↔ Remains remaining value ∧ matchesValue pattern value = false

end Terlan.Typeck
