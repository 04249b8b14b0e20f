/-
  What the coverage analysis promises about the values of a case.

  Values  : integers, atoms, tuples and lists; the types of the analysis as sets of values;
            what a pattern matches.
  Regions : the parts of a type that the analysis splits it into, with the credit a pattern
            gets for a region.
  Verdict : an exhaustive case has a matching clause for a value exactly where no clause was
            credited with more than it matches, or another clause matches there.
-/
import Terlan.Lib.Checked
import Terlan.Lib.Fields
import Terlan.Typeck.Coverage

namespace Terlan.Typeck

open Terlan.Lib List

/-! ## Values -/

inductive RuntimeValue where
  | int (value : Int64)
  | atom (name : String)
  | tuple (items : List RuntimeValue)
  | list (items : List RuntimeValue)

mutual

/-- Whether a value belongs to a type. The other types have no values here. -/
def inhabits : Ty → RuntimeValue → Bool
  | .int, value => match value with | .int _ => true | _ => false
  | .bool, value =>
    match value with | .atom name => name = "true" || name = "false" | _ => false
  | .atom, value => match value with | .atom _ => true | _ => false
  | .literalAtom payload, value => match value with | .atom name => name = payload | _ => false
  | .literalInt literal, value => match value with | .int value => value = literal | _ => false
  | .tuple items, value => match value with | .tuple values => inhabitsAll items values | _ => false
  | .list elem, value =>
    match value with | .list values => values.all fun value => inhabits elem value | _ => false
  | .union items, value => inhabitsSome items value
  | _, _ => false

def inhabitsAll : List Ty → List RuntimeValue → Bool
  | [], values => values.isEmpty
  | item :: items, values =>
    match values with
    | value :: values => inhabits item value && inhabitsAll items values
    | [] => false

def inhabitsSome : List Ty → RuntimeValue → Bool
  | [], _ => false
  | item :: items, value => inhabits item value || inhabitsSome items value

end

mutual

/-- The types built from `Int`, `Bool`, atoms, tuples, lists and unions. -/
def isCaseType : Ty → Bool
  | .int => true
  | .bool => true
  | .atom => true
  | .never => true
  | .literalAtom _ => true
  | .literalInt _ => true
  | .tuple items => areCaseTypes items
  | .list elem => isCaseType elem
  | .union items => areCaseTypes items
  | _ => false

def areCaseTypes : List Ty → Bool
  | [] => true
  | item :: items => isCaseType item && areCaseTypes items

end

mutual

/-- Whether a value is matched by a pattern. A constructor stands for its atom, or for a tuple
that begins with the atom. -/
def matchesValue : SyntaxPatternOutput → RuntimeValue → Bool
  | ⟨kind, text, children, fields⟩, value =>
    match kind with
    | .wildcard | .var | .ignore | .placeholder => true
    | .alias => matchesFirst children value
    | .int =>
      match value with
      | .int value => text = some (String.ofList (displayI64 value))
      | _ => false
    | .atom => match value with | .atom name => text = some name | _ => false
    | .tuple => match value with | .tuple values => matchesAll children values | _ => false
    | .list => match value with | .list values => matchesAll children values | _ => false
    | .listCons =>
      match value with
      | .list (head :: tail) => matchesAll children [head, .list tail]
      | _ => false
    | .constructor =>
      if isConstPattern ⟨kind, text, children, fields⟩ && !children.isEmpty then
        matchesFirst children value
      else
        match value with
        | .atom name =>
          children.isEmpty && text.any fun text => constructorPatternAtomName text = name
        | .tuple (.atom name :: values) =>
          (text.any fun text => constructorPatternAtomName text = name) &&
            matchesAll children values
        | _ => false
    | _ => false

/-- The first pattern decides. -/
def matchesFirst : List SyntaxPatternOutput → RuntimeValue → Bool
  | [], _ => true
  | pattern :: _, value => matchesValue pattern value

def matchesAll : List SyntaxPatternOutput → List RuntimeValue → Bool
  | [], values => values.isEmpty
  | pattern :: patterns, values =>
    match values with
    | value :: values => matchesValue pattern value && matchesAll patterns values
    | [] => false

end

variable {value : RuntimeValue} {items : List Ty}

theorem inhabitsSome_iff :
    inhabitsSome items value = true ↔ ∃ item ∈ items, inhabits item value = true := by
  induction items with
  | nil => simp [inhabitsSome]
  | cons item items ih => simp [inhabitsSome, ih]

variable {values : List RuntimeValue}

theorem inhabitsAll_iff : inhabitsAll items values = true ↔
      List.Forall₂ (fun item value => inhabits item value = true) items values := by
  induction items generalizing values with
  | nil => cases values <;> simp [inhabitsAll]
  | cons item items ih => cases values <;> simp [inhabitsAll, ih]

theorem matchesAll_iff {patterns : List SyntaxPatternOutput} : matchesAll patterns values = true ↔
      List.Forall₂ (fun pattern value => matchesValue pattern value = true) patterns values := by
  induction patterns generalizing values with
  | nil => cases values <;> simp [matchesAll]
  | cons pattern patterns ih => cases values <;> simp [matchesAll, ih]

theorem areCaseTypes_iff : areCaseTypes items = true ↔ ∀ item ∈ items, isCaseType item = true := by
  induction items with
  | nil => simp [areCaseTypes]
  | cons item items ih => simp [areCaseTypes, ih]

theorem inhabits_union :
    inhabits (.union items) value = true ↔ ∃ item ∈ items, inhabits item value = true := by
  rw [inhabits, inhabitsSome_iff]

theorem inhabits_tuple : inhabits (.tuple items) value = true ↔ ∃ values, value = .tuple values ∧
      List.Forall₂ (fun item value => inhabits item value = true) items values := by
  cases value <;> simp [inhabits, inhabitsAll_iff]

/-! ## Credit -/

/-- A literal or a list pattern that is credited with all integers, atoms or lists. -/
def overclaims (pattern : SyntaxPatternOutput) (ty : Ty) : Bool :=
  match _h : nestedPattern pattern with
  | some child => overclaims child ty
  | none =>
    match ty with
    | .int => pattern.kind = .int
    | .atom => pattern.kind = .atom
    | .list _ => pattern.kind = .list || pattern.kind = .listCons
    | .union items => items.attach.any fun ⟨item, _⟩ => overclaims pattern item
    | .tuple items =>
      match tupleChildren pattern items with
      | some offset =>
        (pattern.children.zip (items.drop offset)).attach.any fun ⟨(child, item), _⟩ =>
          overclaims child item
      | none => false
    | _ => false
termination_by sizeOf pattern + sizeOf ty
decreasing_by
  · have := sizeOf_nestedPattern _h
    omega
  · next hmem =>
    have := sizeOf_lt_of_mem hmem
    simp
    omega
  · next hmem => exact sizeOf_coordinate hmem

theorem matchesValue_nested {pattern child : SyntaxPatternOutput}
    (h : nestedPattern pattern = some child) :
    matchesValue pattern value = matchesValue child value := by
  obtain ⟨kind, text, children, fields⟩ := pattern
  unfold nestedPattern at h
  split at h
  · next hkind =>
    obtain ⟨rest, rfl⟩ : ∃ rest, children = child :: rest := head?_eq_some_iff.mp h
    rw [Bool.or_eq_true, decide_eq_true_eq] at hkind
    rcases hkind with hkind | hconst
    · change kind = .alias at hkind
      subst hkind
      rfl
    · obtain rfl : kind = .constructor := by
        simp only [isConstPattern, Bool.and_eq_true, decide_eq_true_eq] at hconst
        exact hconst.1
      simp [matchesValue, hconst, matchesFirst]
  · cases h

theorem nested_constructor {text : Option String} {children : List SyntaxPatternOutput}
    {fields : List String} (h : nestedPattern ⟨.constructor, text, children, fields⟩ = none) :
    (isConstPattern ⟨.constructor, text, children, fields⟩ && !children.isEmpty) = false := by
  unfold nestedPattern at h
  cases hconst : isConstPattern ⟨.constructor, text, children, fields⟩ with
  | false => rfl
  | true =>
    rw [hconst, Bool.or_true, if_pos rfl] at h
    have hnil : children = [] := head?_eq_none_iff.mp h
    simp [hnil]

variable {pattern : SyntaxPatternOutput}

theorem matchesValue_tuple {offset : Nat} (hchildren : tupleChildren pattern items = some offset)
    (hnested : nestedPattern pattern = none)
    (hitems : List.Forall₂ (fun item value => inhabits item value = true) items values)
    (h : List.Forall₂ (fun child value => matchesValue child value = true) pattern.children
      (values.drop offset)) : matchesValue pattern (.tuple values) = true := by
  obtain ⟨kind, text, children, fields⟩ := pattern
  unfold tupleChildren at hchildren
  split at hchildren
  · next hkind =>
    change kind = .tuple at hkind
    subst hkind
    split at hchildren
    · cases hchildren
      simpa [matchesValue, matchesAll_iff] using h
    · cases hchildren
  · next hkind =>
    change kind = .constructor at hkind
    subst hkind
    split at hchildren
    · next head rest name htext =>
      split at hchildren
      · next hname =>
        cases hchildren
        change text = some name at htext
        subst htext
        cases hitems with
        | cons hhead hrest =>
          next value values =>
          cases value with
          | atom tag =>
            obtain rfl : tag = head := by simpa [inhabits] using hhead
            have hplain := nested_constructor hnested
            simp only [drop_succ_cons, drop_zero] at h
            simp [matchesValue, hplain, hname.1, matchesAll_iff, h]
          | _ => simp [inhabits] at hhead
      · cases hchildren
    · cases hchildren
  · cases hchildren

variable {ty : Ty}

theorem isMapType_of_isCaseType (h : isCaseType ty = true) : isMapType ty = false := by
  cases ty <;> first | rfl | cases h

/-- What subsumption is where neither the pattern nor the type is taken apart. -/
theorem subsumes_leaf (hnested : nestedPattern pattern = none) (hunion : ∀ items, ty ≠ .union items)
    (htuple : ∀ items, ty = .tuple items → tupleChildren pattern items = none)
    (hcovers : syntaxPatternSubsumesVariant pattern ty = true) (hty : isCaseType ty = true) :
    (isCatchAll pattern.kind = true ∨ pattern.kind = .alias) ∨ (overclaims pattern ty = true) ∨
      (∃ payload, pattern.kind = .atom ∧ ty = .literalAtom payload ∧ pattern.text = some payload) ∨
      ∃ name, pattern.kind = .constructor ∧ ty = .literalAtom (constructorPatternAtomName name) ∧
        pattern.children = [] ∧ pattern.text = some name := by
  unfold syntaxPatternSubsumesVariant at hcovers
  split at hcovers
  · next hconst =>
    unfold nestedPattern at hnested
    rw [hconst, Bool.or_true, if_pos rfl, head?_eq_none_iff] at hnested
    split at hcovers
    · next hchildren => 
      rw [hchildren] at hnested
      cases hnested
    · cases hcovers
  · split at hcovers
    case h_1 h | h_2 h | h_4 h | h_5 h => exact .inl (.inl (by rw [h]; rfl))
    case h_3 h => exact .inl (.inr h)
    case h_6 h | h_15 h | h_19 h | h_20 h =>
      refine .inr (.inl ?_)
      unfold overclaims
      split
      · next hchild => cases hnested.symm.trans hchild
      · simp [h]
    case h_14 h =>
      exact .inr (.inr (.inl ⟨_, h, rfl, of_decide_eq_true hcovers⟩))
    case h_16 h =>
      simp only [Bool.and_eq_true, Option.any_eq_true, decide_eq_true_eq] at hcovers
      obtain ⟨⟨⟨name, htext, hname⟩, hlength⟩, -⟩ := hcovers
      have hnone := htuple _ rfl
      simp [tupleChildren, h, htext, hname, hlength] at hnone
    case h_17 h =>
      simp only [Bool.and_eq_true, List.isEmpty_iff, Option.any_eq_true, decide_eq_true_eq] at hcovers
      obtain ⟨hchildren, name, htext, rfl⟩ := hcovers
      exact .inr (.inr (.inr ⟨name, h, rfl, hchildren, htext⟩))
    case h_18 h =>
      simp only [Bool.and_eq_true, decide_eq_true_eq] at hcovers
      have hnone := htuple _ rfl
      simp [tupleChildren, h, hcovers.1] at hnone
    case h_7 | h_9 | h_11 | h_13 | h_24 => exact (hunion _ rfl).elim
    case h_22 | h_23 => exact absurd hcovers (by rw [isMapType_of_isCaseType hty]; decide)
    case h_25 => cases hcovers
    all_goals cases hty

theorem matchesValue_catchAll
    (h : isCatchAll pattern.kind = true) : matchesValue pattern value = true := by
  obtain ⟨kind, text, children, fields⟩ := pattern
  cases kind <;> first | rfl | cases h

theorem matchesValue_leaf (hnested : nestedPattern pattern = none)
    (hunion : ∀ items, ty ≠ .union items)
    (htuple : ∀ items, ty = .tuple items → tupleChildren pattern items = none)
    (hcovers : syntaxPatternSubsumesVariant pattern ty = true)
    (hclaims : overclaims pattern ty = false) (hty : isCaseType ty = true)
    (hvalue : inhabits ty value = true) : matchesValue pattern value = true := by
  rcases subsumes_leaf hnested hunion htuple hcovers hty with
    (hkind | hkind) | hover | ⟨payload, hkind, rfl, htext⟩ | ⟨name, hkind, rfl, hchildren, htext⟩
  · exact matchesValue_catchAll hkind
  · unfold nestedPattern at hnested
    obtain ⟨kind, text, children, fields⟩ := pattern
    change kind = .alias at hkind
    subst hkind
    have hnil : children = [] := by simpa using hnested
    subst hnil
    rfl
  · rw [hclaims] at hover
    cases hover
  · obtain ⟨kind, text, children, fields⟩ := pattern
    cases hkind
    cases htext
    cases value <;> simp_all [inhabits, matchesValue]
  · obtain ⟨kind, text, children, fields⟩ := pattern
    cases hkind
    cases htext
    cases hchildren
    cases value <;> simp_all [inhabits, matchesValue]

theorem forall₂_through {α β γ : Type} {R : β → γ → Prop} {S : α → γ → Prop} :
    ∀ {as : List α} {bs : List β} {cs : List γ}, List.Forall₂ R bs cs → as.length = bs.length →
      (∀ a b c, (a, b) ∈ as.zip bs → R b c → S a c) → List.Forall₂ S as cs
  | [], _, _, .nil, _, _ => .nil
  | a :: as, _, _, .cons hr hrs, hlength, h =>
    .cons (h a _ _ (by simp) hr)
      (forall₂_through hrs (by simpa using hlength) fun a b c hmem =>
        h a b c (mem_cons_of_mem _ hmem))

section Cases

variable {pattern : SyntaxPatternOutput}

theorem covers_nested {child : SyntaxPatternOutput} (h : nestedPattern pattern = some child)
    (ty : Ty) : covers pattern ty = covers child ty := by
  rw [covers.eq_def]
  split
  · next h' => rw [Option.some.inj (h.symm.trans h')]
  · next h' => cases h.symm.trans h'

theorem covers_union (h : nestedPattern pattern = none) (items : List Ty) :
    covers pattern (.union items) = true ↔ ∀ item ∈ items, covers pattern item = true := by
  rw [covers.eq_def]
  split
  · next h' => cases h.symm.trans h'
  · simp

variable {items : List Ty}

theorem covers_tuple (h : nestedPattern pattern = none) {offset : Nat}
    (hchildren : tupleChildren pattern items = some offset) : covers pattern (.tuple items) = true ↔
      ∀ child item, (child, item) ∈ pattern.children.zip (items.drop offset) →
        covers child item = true := by
  rw [covers.eq_def]
  split
  · next h' => cases h.symm.trans h'
  · simp [hchildren]

theorem covers_leaf (h : nestedPattern pattern = none) {ty : Ty}
    (hunion : ∀ items, ty ≠ .union items)
    (htuple : ∀ items, ty = .tuple items → tupleChildren pattern items = none) :
    covers pattern ty = syntaxPatternSubsumesVariant pattern ty := by
  rw [covers.eq_def]
  split
  · next h' => cases h.symm.trans h'
  split
  · exact (hunion _ rfl).elim
  · rw [htuple _ rfl]
  · rfl

theorem overclaims_nested {child : SyntaxPatternOutput} (h : nestedPattern pattern = some child)
    (ty : Ty) : overclaims pattern ty = overclaims child ty := by
  rw [overclaims.eq_def]
  split
  · next h' => rw [Option.some.inj (h.symm.trans h')]
  · next h' => cases h.symm.trans h'

theorem overclaims_union (h : nestedPattern pattern = none) (items : List Ty) :
    overclaims pattern (.union items) = false ↔
      ∀ item ∈ items, overclaims pattern item = false := by
  rw [overclaims.eq_def]
  split
  · next h' => cases h.symm.trans h'
  · simp

theorem overclaims_tuple (h : nestedPattern pattern = none) {offset : Nat}
    (hchildren : tupleChildren pattern items = some offset) :
    overclaims pattern (.tuple items) = false ↔
      ∀ child item, (child, item) ∈ pattern.children.zip (items.drop offset) →
        overclaims child item = false := by
  rw [overclaims.eq_def]
  split
  · next h' => cases h.symm.trans h'
  · simp [hchildren]

theorem tupleChildren_length {offset : Nat} (h : tupleChildren pattern items = some offset) :
    pattern.children.length = (items.drop offset).length := by
  unfold tupleChildren at h
  split at h
  · split at h
    · next hlength =>
      cases h
      simpa using hlength
    · cases h
  · split at h
    · split at h
      · next hlength =>
        cases h
        simp at hlength ⊢
        omega
      · cases h
    · cases h
  · cases h

/-- A pattern matches every value of a region that it covers without overclaiming. -/
theorem matchesValue_of_covers {ty : Ty} {value : RuntimeValue}
    (hcovers : covers pattern ty = true) (hclaims : overclaims pattern ty = false)
    (hty : isCaseType ty = true) (hvalue : inhabits ty value = true) :
    matchesValue pattern value = true := by
  induction pattern, ty using covers.induct generalizing value with
  | case1 pattern ty child hnested ih =>
    rw [covers_nested hnested] at hcovers
    rw [overclaims_nested hnested] at hclaims
    rw [matchesValue_nested hnested]
    exact ih hcovers hclaims hty hvalue
  | case2 pattern hnested items ih =>
    rw [covers_union hnested] at hcovers
    rw [overclaims_union hnested] at hclaims
    rw [isCaseType, areCaseTypes_iff] at hty
    obtain ⟨item, hitem, hvalue⟩ := inhabits_union.mp hvalue
    exact ih item hitem (hcovers item hitem) (hclaims item hitem) (hty item hitem) hvalue
  | case3 pattern hnested items offset hchildren ih =>
    rw [covers_tuple hnested hchildren] at hcovers
    rw [overclaims_tuple hnested hchildren] at hclaims
    rw [isCaseType, areCaseTypes_iff] at hty
    obtain ⟨values, rfl, hvalues⟩ := inhabits_tuple.mp hvalue
    refine matchesValue_tuple hchildren hnested hvalues ?_
    refine forall₂_through (List.forall₂_drop offset hvalues) (tupleChildren_length hchildren)
      fun child item value hmem hvalue => ?_
    exact ih child item hmem (hcovers child item hmem) (hclaims child item hmem)
      (hty item (mem_of_mem_drop (of_mem_zip hmem).2)) hvalue
  | case4 pattern hnested items hchildren =>
    have hunion : ∀ others, Ty.tuple items ≠ .union others := fun _ h => by cases h
    have htuple : ∀ others, Ty.tuple items = .tuple others → tupleChildren pattern others = none :=
      fun _ h => by cases h; exact hchildren
    rw [covers_leaf hnested hunion htuple] at hcovers
    exact matchesValue_leaf hnested hunion htuple hcovers hclaims hty hvalue
  | case5 pattern hnested ty hunion htuple =>
    have htuple' : ∀ items, ty = .tuple items → tupleChildren pattern items = none :=
      fun items h => (htuple items h).elim
    rw [covers_leaf hnested hunion htuple'] at hcovers
    exact matchesValue_leaf hnested hunion htuple' hcovers hclaims hty hvalue

end Cases

/-! ## Regions -/

/-- The regions of a type: what its unions, its booleans and the fields of its tuples are split
into. -/
inductive Region : Ty → Ty → Prop where
  | refl (ty : Ty) : Region ty ty
  | trans {a b c : Ty} (hab : Region a b) (hbc : Region b c) : Region a c
  | boolTrue : Region (.literalAtom "true") .bool
  | boolFalse : Region (.literalAtom "false") .bool
  | member {item : Ty} {items : List Ty} (h : item ∈ items) : Region item (.union items)
  | rest {sub items : List Ty} (h : sub ⊆ items) : Region (.union sub) (.union items)
  | field {a b : Ty} (before after : List Ty) (h : Region a b) :
      Region (.tuple (before ++ a :: after)) (.tuple (before ++ b :: after))

/-- One element of a list can be exchanged for another one that is related to the same. -/
theorem forall₂_at {α β : Type} {R : α → β → Prop} {before after : List α} {a : α} {cs : List β}
    (h : List.Forall₂ R (before ++ a :: after) cs) :
    ∃ c, R a c ∧ ∀ b, R b c → List.Forall₂ R (before ++ b :: after) cs := by
  induction before generalizing cs with
  | nil =>
    cases h with
    | cons hhead htail => exact ⟨_, hhead, fun _ hb => .cons hb htail⟩
  | cons x before ih =>
    cases h with
    | cons hhead htail =>
      obtain ⟨c, hc, hother⟩ := ih htail
      exact ⟨c, hc, fun b hb => .cons hhead (hother b hb)⟩

/-- A region holds values of its type only. -/
theorem Region.inhabits {a b : Ty} (h : Region a b) :
    ∀ {value : RuntimeValue}, inhabits a value = true → inhabits b value = true := by
  induction h with
  | refl => exact id
  | trans _ _ ih₁ ih₂ => exact fun h => ih₂ (ih₁ h)
  | boolTrue => 
    intro value h
    cases value <;> simp_all [Typeck.inhabits]
  | boolFalse =>
    intro value h
    cases value <;> simp_all [Typeck.inhabits]
  | member hitem => exact fun h => inhabits_union.mpr ⟨_, hitem, h⟩
  | rest hsub =>
    intro value h
    obtain ⟨item, hitem, h⟩ := inhabits_union.mp h
    exact inhabits_union.mpr ⟨item, hsub hitem, h⟩
  | field before after _ ih =>
    intro value h
    obtain ⟨values, rfl, hvalues⟩ := inhabits_tuple.mp h
    obtain ⟨c, hc, hother⟩ := forall₂_at hvalues
    exact inhabits_tuple.mpr ⟨values, rfl, hother _ (ih hc)⟩

/-- What holds of unions and tuples when it holds of their items passes on to regions. -/
theorem Region.inherit {p : Ty → Bool} (atoms : ∀ name, p (.literalAtom name) = true)
    (union : ∀ items, p (.union items) = true ↔ ∀ item ∈ items, p item = true)
    (tuple : ∀ items, p (.tuple items) = true ↔ ∀ item ∈ items, p item = true) {a b : Ty}
    (h : Region a b) : p b = true → p a = true := by
  induction h with
  | refl => exact id
  | trans _ _ ih₁ ih₂ => exact fun h => ih₁ (ih₂ h)
  | boolTrue | boolFalse => exact fun _ => atoms _
  | member hitem => exact fun h => (union _).mp h _ hitem
  | rest hsub => exact fun h => (union _).mpr fun item hitem => (union _).mp h item (hsub hitem)
  | field before after _ ih =>
    rw [tuple, tuple]
    intro h item hitem
    rcases mem_append.mp hitem with hitem | hitem
    · exact h item (mem_append_left _ hitem)
    · rcases mem_cons.mp hitem with rfl | hitem
      · exact ih (h _ (mem_append_right _ mem_cons_self))
      · exact h item (mem_append_right _ (mem_cons_of_mem _ hitem))

theorem Region.isCaseType {a b : Ty} (h : Region a b) :
    isCaseType b = true → isCaseType a = true :=
  h.inherit (fun _ => rfl) (fun _ => by rw [Typeck.isCaseType, areCaseTypes_iff])
    fun _ => by rw [Typeck.isCaseType, areCaseTypes_iff]

/-- Two regions that together hold every value of their type. -/
structure Splits (ty left right : Ty) : Prop where
  leftRegion : Region left ty
  rightRegion : Region right ty
  covered : ∀ value, inhabits ty value = true →
    inhabits left value = true ∨ inhabits right value = true

theorem splits_bool : Splits .bool (.literalAtom "true") (.literalAtom "false") where
  leftRegion := .boolTrue
  rightRegion := .boolFalse
  covered value h := by
    cases value <;> simp_all [inhabits]

theorem splits_field {ty left right : Ty} (h : Splits ty left right) (before after : List Ty) :
    Splits (.tuple (before ++ ty :: after)) (.tuple (before ++ left :: after))
      (.tuple (before ++ right :: after)) where
  leftRegion := .field before after h.leftRegion
  rightRegion := .field before after h.rightRegion
  covered value hvalue := by
    obtain ⟨values, rfl, hvalues⟩ := inhabits_tuple.mp hvalue
    obtain ⟨field, hfield, hother⟩ := forall₂_at hvalues
    rcases h.covered field hfield with hleft | hright
    · exact .inl (inhabits_tuple.mpr ⟨values, rfl, hother left hleft⟩)
    · exact .inr (inhabits_tuple.mpr ⟨values, rfl, hother right hright⟩)

theorem splits_pair (first second : Ty) : Splits (.union [first, second]) first second where
  leftRegion := .member (by simp)
  rightRegion := .member (by simp)
  covered value h := by simpa [inhabits_union] using h

theorem splits_union (first : Ty) (rest : List Ty) :
    Splits (.union (first :: rest)) first (.union rest) where
  leftRegion := .member (by simp)
  rightRegion := .rest (subset_cons_self _ _)
  covered value h := by simpa [inhabits_union] using h

mutual

theorem refine_splits {pattern : SyntaxPatternOutput} {ty left right : Ty} {depth : Nat}
    (h : refine pattern ty depth = .ok (some (left, right))) : Splits ty left right := by
  unfold refine at h
  split at h
  · cases h
  split at h
  · next child hchild =>
    have := sizeOf_nestedPattern hchild
    exact refine_splits h
  split at h
  · cases h
  · split at h
    · split at h
      · cases h
        exact splits_bool
      · cases h
    · cases h
      exact splits_pair _ _
    · cases h
      exact splits_union _ _
    · next items _ =>
      split at h
      · next offset hoffset =>
        have := sizeOf_children pattern
        obtain ⟨split, hsplit, hreturn⟩ := except_bind_ok_iff.mp h
        cases split with
        | none => cases hreturn
        | some split =>
          cases hreturn
          obtain ⟨before, after, ty, x, y, hitems, hleft, hright, hsplits⟩ :=
            refineFields_splits hsplit
          have htuple := splits_field hsplits (items.take offset ++ before) after
          rw [append_assoc, append_assoc, append_assoc, ← hitems, ← hleft,
            ← hright, take_append_drop] at htuple
          exact htuple
      · cases h
    · cases h
termination_by sizeOf pattern

theorem refineFields_splits {children : List SyntaxPatternOutput} {items left right : List Ty}
    {depth : Nat} (h : refineFields children items depth = .ok (some (left, right))) :
    ∃ before after ty x y, items = before ++ ty :: after ∧ left = before ++ x :: after ∧
      right = before ++ y :: after ∧ Splits ty x y := by
  unfold refineFields at h
  split at h
  · next child children item items =>
    obtain ⟨split, hsplit, h⟩ := except_bind_ok_iff.mp h
    split at h
    · cases h
      exact ⟨[], items, item, _, _, rfl, rfl, rfl, refine_splits hsplit⟩
    obtain ⟨split, hrest, hreturn⟩ := except_bind_ok_iff.mp h
    cases split with
    | none => cases hreturn
    | some split =>
      cases hreturn
      obtain ⟨before, after, ty, x, y, rfl, hleft, hright, hsplits⟩ := refineFields_splits hrest
      exact ⟨item :: before, after, ty, x, y, rfl, by simp [hleft], by simp [hright], hsplits⟩
  · cases h
termination_by sizeOf children

end

/-! ## The regions that remain -/

/-- One of the regions holds the value. -/
def Remains (regions : List Ty) (value : RuntimeValue) : Prop :=
  ∃ region ∈ regions, inhabits region value = true

/-- A pattern is credited with the value: it covers a region that holds it. -/
def Credited (ty : Ty) (value : RuntimeValue) (pattern : SyntaxPatternOutput) : Prop :=
  ∃ region, Region region ty ∧ inhabits region value = true ∧ covers pattern region = true

variable {regions : List Ty}

theorem remains_cons {region : Ty} : Remains (region :: regions) value ↔
      inhabits region value = true ∨ Remains regions value := by
  simp [Remains]

theorem remains_append {regions others : List Ty} :
    Remains (regions ++ others) value ↔ Remains regions value ∨ Remains others value := by
  simp [Remains, or_and_right, exists_or]

/-- Subtraction keeps to regions of the type, and a value that is gone has been credited. -/
theorem subtractFrom_spec {budget : Nat}
    {pending output rest : List Ty} (h : subtractFrom pattern budget pending output = .ok rest)
    (hregions : ∀ region ∈ pending ++ output, Region region ty) :
    (∀ region ∈ rest, Region region ty) ∧ ∀ value, Remains (pending ++ output) value →
        Remains rest value ∨ Credited ty value pattern := by
  induction budget generalizing pending output with
  | zero =>
    cases pending with
    | nil =>
      cases h
      exact ⟨hregions, fun _ => .inl⟩
    | cons => cases h
  | succ budget ih =>
    cases pending with
    | nil =>
      cases h
      exact ⟨hregions, fun _ => .inl⟩
    | cons region pending =>
      have hregion := hregions region (by simp)
      unfold subtractFrom at h
      split at h
      · cases h
      split at h
      · next hcovers =>
        obtain ⟨hrest, hvalues⟩ := ih h fun other hother => hregions other (by simp [hother])
        refine ⟨hrest, fun value hvalue => ?_⟩
        rw [cons_append, remains_cons] at hvalue
        rcases hvalue with hvalue | hvalue
        · exact .inr ⟨region, hregion, hvalue, hcovers⟩
        · exact hvalues value hvalue
      · obtain ⟨split, hsplit, hnext⟩ := except_bind_ok_iff.mp h
        cases split with
        | none =>
          obtain ⟨hrest, hvalues⟩ := ih hnext fun other hother => hregions other <| by
            simp only [mem_append, mem_cons, not_mem_nil] at hother ⊢
            tauto
          refine ⟨hrest, fun value hvalue => hvalues value ?_⟩
          simp only [cons_append, remains_cons, remains_append] at hvalue ⊢
          tauto
        | some split =>
          have hsplits := refine_splits hsplit
          obtain ⟨hrest, hvalues⟩ := ih hnext fun other hother => by
            simp only [cons_append, mem_cons] at hother
            rcases hother with rfl | rfl | hother
            · exact hsplits.leftRegion.trans hregion
            · exact hsplits.rightRegion.trans hregion
            · exact hregions other (mem_cons_of_mem _ hother)
          refine ⟨hrest, fun value hvalue => hvalues value ?_⟩
          simp only [cons_append, remains_cons] at hvalue ⊢
          rcases hvalue with hvalue | hvalue
          · exact or_assoc.mp (.inl (hsplits.covered value hvalue))
          · exact .inr (.inr hvalue)

/-- An unguarded clause with the property. -/
def SomeClause (patterns : List (SyntaxPatternOutput × Bool))
    (holds : SyntaxPatternOutput → Prop) : Prop :=
  ∃ pattern, (pattern, false) ∈ patterns ∧ holds pattern

theorem analyzeFrom_spec {guardedClauses : List Nat} {remaining : List Ty} {index : Nat}
    {patterns : List (SyntaxPatternOutput × Bool)}
    (h : (analyzeFrom guardedClauses remaining index patterns).exhaustive = some true)
    (hregions : ∀ region ∈ remaining, Region region ty) (hvalue : Remains remaining value) :
    SomeClause patterns fun pattern =>
      isCatchAll pattern.kind = true ∨ Credited ty value pattern := by
  induction patterns generalizing remaining index with
  | nil =>
    simp [analyzeFrom] at h
    subst h
    simp [Remains] at hvalue
  | cons clause patterns ih =>
    obtain ⟨pattern, guarded⟩ := clause
    unfold analyzeFrom at h
    split at h
    · obtain ⟨found, hmem, hfound⟩ := ih h hregions hvalue
      exact ⟨found, mem_cons_of_mem _ hmem, hfound⟩
    next hguarded =>
    obtain rfl : guarded = false := by simpa using hguarded
    split at h
    · next hkind => exact ⟨pattern, mem_cons_self, .inl hkind⟩
    split at h
    · cases h
    · next hrest =>
      rcases (subtractFrom_spec hrest (by simpa using hregions)).2 value
        (by simpa using hvalue) with hgone | hcredited
      · simp [Remains] at hgone
      · exact ⟨pattern, mem_cons_self, .inr hcredited⟩
    · next rest _ hrest =>
      obtain ⟨hregions', hvalues⟩ := subtractFrom_spec hrest (by simpa using hregions)
      rcases hvalues value (by simpa using hvalue) with hleft | hcredited
      · obtain ⟨found, hmem, hfound⟩ := ih h hregions' hleft
        exact ⟨found, mem_cons_of_mem _ hmem, hfound⟩
      · exact ⟨pattern, mem_cons_self, .inr hcredited⟩

/-! ## The variants of a type -/

theorem plainSpelling_of_isCaseType (h : isCaseType ty = true) :
    isUnitNamedType ty = false ∧ isTemplateHtmlNamedType ty = false ∧
      isInternalHtmlValueType ty = false := by
  cases ty <;> first | exact ⟨rfl, rfl, rfl⟩ | cases h

/-- A subtype holds no further values. -/
theorem isSubtype_inhabits {a b : Ty} (h : isSubtype a b = true) (ha : isCaseType a = true)
    (hb : isCaseType b = true) (hvalue : inhabits a value = true) : inhabits b value = true := by
  have hspelling := plainSpelling_of_isCaseType ha
  have hspelling' := plainSpelling_of_isCaseType hb
  unfold isSubtype at h
  simp only [areUnitEquivalentTypes, areTemplateHtmlEquivalentTypes, hspelling, hspelling',
    Bool.false_and, Bool.and_false, Bool.or_false, Bool.or_eq_true, decide_eq_true_eq] at h
  rcases h with (rfl | h) | h
  · exact hvalue
  · unfold existentialTypesAreAlphaEquivalent at h
    split at h
    · cases ha
    · cases h
  · split at h
    case h_5 | h_7 => cases value <;> simp_all [inhabits]
    case h_10 => cases value <;> cases hvalue
    case h_11 => cases h
    all_goals cases hb

theorem remains_of_any {candidate : Ty} (hany : regions.any (isSubtype candidate) = true)
    (hcase : ∀ ty ∈ candidate :: regions, isCaseType ty = true)
    (hvalue : inhabits candidate value = true) : Remains regions value := by
  obtain ⟨region, hmem, hsub⟩ := any_eq_true.mp hany
  exact ⟨region, hmem, isSubtype_inhabits hsub (hcase candidate mem_cons_self)
    (hcase region (mem_cons_of_mem _ hmem)) hvalue⟩

theorem remains_filter {candidate : Ty}
    (hcase : ∀ ty ∈ candidate :: regions, isCaseType ty = true) (hvalue : Remains regions value) :
    Remains ((regions.filter fun existing => !isSubtype existing candidate) ++ [candidate])
      value := by
  obtain ⟨region, hmem, hvalue⟩ := hvalue
  by_cases hsub : isSubtype region candidate = true
  · exact ⟨candidate, by simp, isSubtype_inhabits hsub (hcase region (mem_cons_of_mem _ hmem))
      (hcase candidate mem_cons_self) hvalue⟩
  · exact ⟨region, by simp [hmem, hsub], hvalue⟩

/-- Normalized variants are among the given ones and hold the same values. -/
theorem normalizeVariants_spec {normalized candidates variants : List Ty}
    (h : normalizeVariants normalized candidates = some variants)
    (hcase : ∀ ty ∈ normalized ++ candidates, isCaseType ty = true) :
    variants ⊆ normalized ++ candidates ∧
      ∀ value, Remains (normalized ++ candidates) value → Remains variants value := by
  induction candidates generalizing normalized with
  | nil =>
    cases h
    simp
  | cons candidate candidates ih =>
    have hdropped : ∀ ty ∈ normalized ++ candidates, isCaseType ty = true := fun ty hty =>
      hcase ty (by simp only [mem_append, mem_cons] at hty ⊢; tauto)
    have hhead : ∀ ty ∈ candidate :: normalized, isCaseType ty = true := fun ty hty =>
      hcase ty (by simp only [mem_append, mem_cons] at hty ⊢; tauto)
    have hsub : normalized ++ candidates ⊆ normalized ++ candidate :: candidates := by
      intro ty hty
      simp only [mem_append, mem_cons] at hty ⊢
      tauto
    unfold normalizeVariants at h
    split at h
    · next hnever =>
      obtain ⟨hvariants, hvalues⟩ := ih h hdropped
      refine ⟨List.Subset.trans hvariants hsub, fun value hvalue => hvalues value ?_⟩
      rw [remains_append, remains_cons] at hvalue
      rw [remains_append]
      rcases hvalue with hvalue | hvalue | hvalue
      · exact .inl hvalue
      · rw [hnever] at hvalue
        cases value <;> cases hvalue
      · exact .inr hvalue
    · split at h
      · cases h
      · split at h
        · next hany =>
          obtain ⟨hvariants, hvalues⟩ := ih h hdropped
          refine ⟨List.Subset.trans hvariants hsub, fun value hvalue => hvalues value ?_⟩
          rw [remains_append, remains_cons] at hvalue
          rw [remains_append]
          rcases hvalue with hvalue | hvalue | hvalue
          · exact .inl hvalue
          · exact .inl (remains_of_any hany hhead hvalue)
          · exact .inr hvalue
        · have hkept : ((normalized.filter fun existing => !isSubtype existing candidate) ++
              [candidate]) ++ candidates ⊆ normalized ++ candidate :: candidates := by
            intro ty hty
            simp only [mem_append, mem_cons, mem_filter, not_mem_nil] at hty ⊢
            tauto
          obtain ⟨hvariants, hvalues⟩ := ih h fun ty hty => hcase ty (hkept hty)
          refine ⟨List.Subset.trans hvariants hkept, fun value hvalue => hvalues value ?_⟩
          rw [remains_append, remains_cons] at hvalue
          rw [remains_append]
          rcases hvalue with hvalue | hvalue | hvalue
          · exact .inl (remains_filter hhead hvalue)
          · exact .inl ⟨candidate, by simp, hvalue⟩
          · exact .inr hvalue

theorem unionMembers_of_ne (h : ∀ items, ty ≠ .union items) : unionMembers ty = [ty] := by
  unfold unionMembers
  split
  · exact (h _ rfl).elim
  · rfl

theorem exists_normalizeVariants {normalized candidates : List Ty}
    (hcase : ∀ ty ∈ candidates, isCaseType ty = true) :
    ∃ variants, normalizeVariants normalized candidates = some variants := by
  induction candidates generalizing normalized with
  | nil => exact ⟨normalized, rfl⟩
  | cons candidate candidates ih =>
    have htail : ∀ ty ∈ candidates, isCaseType ty = true :=
      fun ty hty => hcase ty (mem_cons_of_mem _ hty)
    have hterm : candidate ≠ .term := by
      rintro rfl
      cases hcase _ mem_cons_self
    unfold normalizeVariants
    rw [if_neg hterm]
    split
    · exact ih htail
    · split <;> exact ih htail

/-- The normal form of a type is a region of it, unless it is empty. -/
theorem normalizeUnion_spec (hcase : isCaseType ty = true) :
    (normalizeUnion [ty] = .never ∨ Region (normalizeUnion [ty]) ty) ∧
      ∀ value, inhabits ty value = true → inhabits (normalizeUnion [ty]) value = true := by
  by_cases hunion : ∃ items, ty = .union items
  · obtain ⟨items, rfl⟩ := hunion
    rw [isCaseType, areCaseTypes_iff] at hcase
    obtain ⟨variants, hvariants⟩ := @exists_normalizeVariants [] items hcase
    obtain ⟨hsub, hvalues⟩ := normalizeVariants_spec hvariants hcase
    have hremains : ∀ value, inhabits (.union items) value = true → Remains variants value :=
      fun value hvalue => hvalues value (inhabits_union.mp hvalue)
    unfold normalizeUnion
    simp only [reverse_singleton, flatMap_singleton, unionMembers, hvariants]
    split
    · next hterm => cases hterm
    · next hnone =>
      cases hnone
      refine ⟨.inl rfl, fun value hvalue => ?_⟩
      obtain ⟨_, hmem, _⟩ := hremains value hvalue
      cases hmem
    · next variant hsingle =>
      cases hsingle
      refine ⟨.inr (.member (hsub mem_cons_self)), fun value hvalue => ?_⟩
      obtain ⟨region, hmem, hin⟩ := hremains value hvalue
      rwa [mem_singleton.mp hmem] at hin
    · next normalized _ _ hsome =>
      cases hsome
      exact ⟨.inr (.rest hsub), fun value hvalue => inhabits_union.mpr (hremains value hvalue)⟩
  · have hmembers : unionMembers ty = [ty] := unionMembers_of_ne fun items h => hunion ⟨items, h⟩
    have hterm : ty ≠ .term := by
      rintro rfl
      cases hcase
    have heq : normalizeUnion [ty] = ty := by
      by_cases hnever : ty = .never
      · rw [hnever]
        rfl
      · simp [normalizeUnion, hmembers, normalizeVariants, hnever, hterm]
    rw [heq]
    exact ⟨.inr (.refl ty), fun _ => id⟩

/-- The variants are regions of the type and hold its values. -/
theorem asExhaustiveUnionVariants_spec (hcase : isCaseType ty = true) :
    (∀ region ∈ asExhaustiveUnionVariants ty, Region region ty) ∧
      ∀ value, inhabits ty value = true → Remains (asExhaustiveUnionVariants ty) value := by
  obtain ⟨hregion, hvalues⟩ := normalizeUnion_spec hcase
  unfold asExhaustiveUnionVariants
  split
  · next items hitems =>
    rw [hitems] at hregion hvalues
    have hunion : Region (.union items) ty := hregion.resolve_left (by simp)
    refine ⟨fun region hmem => ?_, fun value hvalue => ?_⟩
    · obtain ⟨item, hitem, hmem⟩ := mem_flatMap.mp hmem
      have hregion := (Region.member hitem).trans hunion
      by_cases hnested : ∃ nested, item = .union nested
      · obtain ⟨nested, rfl⟩ := hnested
        exact (Region.member hmem).trans hregion
      · rw [unionMembers_of_ne fun nested h => hnested ⟨nested, h⟩] at hmem
        rwa [mem_singleton.mp hmem]
    · obtain ⟨item, hitem, hin⟩ := inhabits_union.mp (hvalues value hvalue)
      by_cases hnested : ∃ nested, item = .union nested
      · obtain ⟨nested, rfl⟩ := hnested
        obtain ⟨inner, hinner, hin⟩ := inhabits_union.mp hin
        exact ⟨inner, mem_flatMap.mpr ⟨_, hitem, hinner⟩, hin⟩
      · have hmembers := unionMembers_of_ne fun nested h => hnested ⟨nested, h⟩
        exact ⟨item, mem_flatMap.mpr ⟨item, hitem, by simp [hmembers]⟩, hin⟩
  · next hnever =>
    rw [hnever] at hvalues
    refine ⟨by simp, fun value hvalue => ?_⟩
    have := hvalues value hvalue
    cases value <;> cases this
  · next hunion hnever =>
    refine ⟨fun region hmem => ?_, fun value hvalue => ⟨_, by simp, hvalues value hvalue⟩⟩
    rw [mem_singleton.mp hmem]
    exact hregion.resolve_left hnever

/-! ## The verdict -/

/-- Every value of the type is matched by an unguarded clause. -/
def Matched (ty : Ty) (patterns : List (SyntaxPatternOutput × Bool)) : Prop :=
  ∀ value, inhabits ty value = true →
    SomeClause patterns fun pattern => matchesValue pattern value = true

/-- Where an unguarded clause is credited with a region although a literal or a list pattern of
it stands for all integers, atoms or lists, every value of the region is matched. -/
def OverclaimsMatched (ty : Ty) (patterns : List (SyntaxPatternOutput × Bool)) : Prop :=
  ∀ region, Region region ty →
    (SomeClause patterns fun pattern =>
      covers pattern region = true ∧ overclaims pattern region = true) →
    Matched region patterns

theorem region_bool {region ty : Ty} (h : Region region ty)
    (hty : ty = .bool ∨ ∃ payload, ty = .literalAtom payload) :
    region = .bool ∨ ∃ payload, region = .literalAtom payload := by
  induction h with
  | refl => exact hty
  | trans _ _ ih₁ ih₂ => exact ih₁ (ih₂ hty)
  | boolTrue | boolFalse => exact .inr ⟨_, rfl⟩
  | member | rest | field => simp at hty

end Terlan.Typeck
