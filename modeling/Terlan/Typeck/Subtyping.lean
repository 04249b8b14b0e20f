/-
  The comparison of types: model, and what one comparison can be.

  Model    : the comparison recurses into both types and, for parameters and invariant
             arguments, with the sides exchanged; it terminates as the two sizes fall.
  Inversion: `Compares` lists the ways in which one type is below another.
-/
import Mathlib.Data.List.Forall2
import Terlan.Typeck.Types

namespace Terlan.Typeck

open List

/-! ## The comparison -/

/-- The payload type of the standard `Option` application. -/
def optionInnerType : Ty → Option Ty
  | .named none name [inner] => if name = "Option" then some inner else none
  | .named (some module) name [inner] =>
    if module = "std.core.Option" ∧ name = "Option" then some inner else none
  | _ => none

/-- What `option_representation_is_subtype` asks of its payload comparison: nothing for the
`none` atom, the two payloads for a tagged pair. -/
def optionRepresentation (lhs rhs : Ty) : Option (Option (Ty × Ty)) :=
  match optionInnerType rhs with
  | none => none
  | some inner =>
    match lhs with
    | .literalAtom atom => if atom = "none" then some none else none
    | .tuple [.literalAtom tag, payload] =>
      if tag = "some" then some (some (payload, inner)) else none
    | _ => none

theorem sizeOf_portableListElement {ty element : Ty} (h : portableListElement ty = some element) :
    sizeOf element < sizeOf ty := by
  unfold portableListElement at h
  split at h
  · cases h
    simp
  · split at h
    · cases h
      simp
      omega
    · cases h
  · cases h

theorem sizeOf_optionInnerType {ty inner : Ty} (h : optionInnerType ty = some inner) :
    sizeOf inner < sizeOf ty := by
  unfold optionInnerType at h
  split at h
  · split at h
    · cases h
      simp
      omega
    · cases h
  · split at h
    · cases h
      simp
      omega
    · cases h
  · cases h

theorem sizeOf_optionRepresentation {lhs rhs payload inner : Ty}
    (h : optionRepresentation lhs rhs = some (some (payload, inner))) :
    sizeOf payload + sizeOf inner < sizeOf lhs + sizeOf rhs := by
  unfold optionRepresentation at h
  split at h
  · cases h
  next inner' hinner =>
  have hsize := sizeOf_optionInnerType hinner
  split at h
  · split at h <;> cases h
  · split at h
    · cases h
      simp
      omega
    · cases h
  · cases h

theorem sizeOf_field {fields : List (MapFieldType Ty)} {field : MapFieldType Ty}
    (h : field ∈ fields) : sizeOf field.value < sizeOf (Ty.map fields) := by
  have hmem := sizeOf_lt_of_mem h
  have hfield : sizeOf field.value < sizeOf field := by
    obtain ⟨key, value, required⟩ := field
    rw [MapFieldType.mk.sizeOf_spec]
    show sizeOf value < _
    omega
  rw [Ty.map.sizeOf_spec]
  omega

variable {a b : Ty} {as bs : List Ty}

theorem sizeOf_zip (h : (a, b) ∈ as.zip bs) : sizeOf a < sizeOf as ∧ sizeOf b < sizeOf bs :=
  ⟨sizeOf_lt_of_mem (of_mem_zip h).1, sizeOf_lt_of_mem (of_mem_zip h).2⟩

/-- Whether the first type is a subtype of the second one. The table of finished comparisons is
left out, and so are the expansion of aliases and their variances: a type that names no alias
is its own expansion, and the arguments of its named types are invariant. -/
def isSubtypeWithAliases (lhs rhs : Ty) : Bool :=
  isSubtype lhs rhs ||
    match _hl : portableListElement lhs, _hr : portableListElement rhs with
    | some lhsElem, some rhsElem => isSubtypeWithAliases lhsElem rhsElem
    | _, _ =>
      match _ho : optionRepresentation lhs rhs with
      | some none => true
      | some (some (payload, inner)) => isSubtypeWithAliases payload inner
      | none =>
        match lhs, rhs with
        | .union items, rhs =>
          items.attach.all fun ⟨item, _⟩ => isSubtypeWithAliases item rhs
        | lhs, .union items =>
          items.attach.any fun ⟨item, _⟩ => isSubtypeWithAliases lhs item
        | .tuple lhsItems, .tuple rhsItems =>
          lhsItems.length = rhsItems.length &&
            (lhsItems.zip rhsItems).attach.all fun ⟨(lhsItem, rhsItem), _⟩ =>
              isSubtypeWithAliases lhsItem rhsItem
        | .array lhsSize lhsElem, .array rhsSize rhsElem =>
          lhsSize = rhsSize && isSubtypeWithAliases lhsElem rhsElem
        | .map lhsFields, .map rhsFields =>
          rhsFields.attach.all fun ⟨rhsField, _⟩ =>
            match _hf : lhsFields.find? (fun field => field.key = rhsField.key) with
            | none => !rhsField.required
            | some lhsField =>
              !(rhsField.required && !lhsField.required) &&
                isSubtypeWithAliases lhsField.value rhsField.value
        | .named lhsModule lhsName lhsArgs, .named rhsModule rhsName rhsArgs =>
          (lhsModule = rhsModule && lhsName = rhsName &&
              lhsArgs.length = rhsArgs.length) &&
            (lhsArgs.zip rhsArgs).attach.all fun ⟨(lhsArg, rhsArg), _⟩ =>
              isSubtypeWithAliases lhsArg rhsArg && isSubtypeWithAliases rhsArg lhsArg
        | .function lhsParams lhsRet, .function rhsParams rhsRet =>
          lhsParams.length = rhsParams.length &&
            ((lhsParams.zip rhsParams).attach.all fun ⟨(lhsParam, rhsParam), _⟩ =>
              isSubtypeWithAliases rhsParam lhsParam) &&
            isSubtypeWithAliases lhsRet rhsRet
        | _, _ => false
termination_by sizeOf lhs + sizeOf rhs
decreasing_by
  · have := sizeOf_portableListElement _hl
    have := sizeOf_portableListElement _hr
    omega
  · exact sizeOf_optionRepresentation _ho
  · next hmem =>
    have := sizeOf_lt_of_mem hmem
    simp
    omega
  · next hmem =>
    have := sizeOf_lt_of_mem hmem
    simp
    omega
  · next hmem =>
    have := sizeOf_zip hmem
    simp
    omega
  · simp
    omega
  · next hmem =>
    have := sizeOf_field hmem
    have := sizeOf_field (mem_of_find?_eq_some _hf)
    omega
  · next hmem =>
    have := sizeOf_zip hmem
    simp
    omega
  · next hmem =>
    have := sizeOf_zip hmem
    simp
    omega
  · next hmem =>
    have := sizeOf_zip hmem
    simp
    omega
  · simp
    omega

/-- The comparison as a relation. -/
abbrev IsSubtype (lhs rhs : Ty) : Prop := isSubtypeWithAliases lhs rhs = true

/-! ## What one comparison can be -/

/-- One expected map field against the fields of the candidate. -/
def FieldMatches (R : Ty → Ty → Prop) (fields : List (MapFieldType Ty))
    (expected : MapFieldType Ty) : Prop :=
  match fields.find? (fun field => field.key = expected.key) with
  | none => expected.required = false
  | some field => (expected.required = true → field.required = true) ∧ R field.value expected.value

/-- The ways that look at the shape of both types, when the types inside are compared by `R`. -/
inductive SameShape (R : Ty → Ty → Prop) : Ty → Ty → Prop where
  | alpha {ps qs : List TypeVarId} {a b : Ty}
      (h : existentialTypesAreAlphaEquivalent (.existential ps a) (.existential qs b) = true) :
      SameShape R (.existential ps a) (.existential qs b)
  | intNumber : SameShape R .int .number
  | floatNumber : SameShape R .float .number
  | literalInt (value : Int64) : SameShape R (.literalInt value) .int
  | literalNumber (value : Int64) : SameShape R (.literalInt value) .number
  | literalAtom (payload : String) : SameShape R (.literalAtom payload) .atom
  | list {a b c d : Ty} (hl : portableListElement a = some c) (hr : portableListElement b = some d)
      (h : R c d) : SameShape R a b
  | tuple {as bs : List Ty} (h : List.Forall₂ R as bs) : SameShape R (.tuple as) (.tuple bs)
  | array {size : ArraySize} {a b : Ty} (h : R a b) : SameShape R (.array size a) (.array size b)
  | map {as bs : List (MapFieldType Ty)} (h : ∀ expected ∈ bs, FieldMatches R as expected) :
      SameShape R (.map as) (.map bs)
  | named {module : Option String} {name : String} {as bs : List Ty}
      (hl : portableListElement (.named module name as) = none)
      (h : List.Forall₂ (fun a b => R a b ∧ R b a) as bs) :
      SameShape R (.named module name as) (.named module name bs)
  | function {ps qs : List Ty} {r s : Ty} (hparams : List.Forall₂ (fun p q => R q p) ps qs)
      (hret : R r s) : SameShape R (.function ps r) (.function qs s)

/-- The ways in which one type may be below another one. -/
inductive Compares (R : Ty → Ty → Prop) : Ty → Ty → Prop where
  | refl (a : Ty) : Compares R a a
  | dynamic (a : Ty) : Compares R a .dynamic
  | term (a : Ty) : Compares R a .term
  | never (b : Ty) : Compares R .never b
  | unionLeft {items : List Ty} {b : Ty} (h : ∀ item ∈ items, R item b) : Compares R (.union items) b
  | unionRight {items : List Ty} {a item : Ty} (hitem : item ∈ items) (h : R a item) :
      Compares R a (.union items)
  | shape {a b : Ty} (h : SameShape R a b) : Compares R a b

variable {R S : Ty → Ty → Prop}

theorem FieldMatches.mono (h : ∀ a b, R a b → S a b)
    {fields : List (MapFieldType Ty)} {expected : MapFieldType Ty}
    (hfield : FieldMatches R fields expected) : FieldMatches S fields expected := by
  unfold FieldMatches at hfield ⊢
  split
  · next hfind => simpa [hfind] using hfield
  · next field hfind =>
    rw [hfind] at hfield
    exact ⟨hfield.1, h _ _ hfield.2⟩

/-- The types whose spelling the compiler itself gives a meaning: they stand for other types. -/
def isCompilerNamedType (ty : Ty) : Bool :=
  isUnitNamedType ty || (optionInnerType ty).isSome || isTemplateHtmlNamedType ty ||
    isInternalHtmlValueType ty

theorem mapFieldIsSubtype_iff (fields : List (MapFieldType Ty)) (expected : MapFieldType Ty) :
    mapFieldIsSubtype fields expected = true ↔
      FieldMatches (fun a b => isSubtype a b = true) fields expected := by
  induction fields with
  | nil => simp [mapFieldIsSubtype, FieldMatches]
  | cons field fields ih =>
    obtain ⟨key, value, required⟩ := field
    rw [mapFieldIsSubtype, FieldMatches, find?_cons]
    by_cases hkey : key = expected.key
    · simp only [hkey, if_true, decide_true]
      cases required <;> cases expected.required <;> simp
    · simp only [hkey, if_false, decide_false]
      exact ih

/-- The structural comparison is one of the ways. -/
theorem isSubtype_compares (ha : isCompilerNamedType a = false)
    (hb : isCompilerNamedType b = false) (h : isSubtype a b = true) :
    Compares (fun a b => isSubtype a b = true) a b := by
  have hunit : areUnitEquivalentTypes a b = false := by
    simp only [isCompilerNamedType, Bool.or_eq_false_iff] at ha hb
    simp [areUnitEquivalentTypes, ha, hb]
  have hhtml : areTemplateHtmlEquivalentTypes a b = false := by
    simp only [isCompilerNamedType, Bool.or_eq_false_iff] at ha hb
    simp [areTemplateHtmlEquivalentTypes, ha, hb]
  unfold isSubtype at h
  rw [hunit, hhtml] at h
  simp only [Bool.or_false, Bool.or_eq_true, decide_eq_true_eq] at h
  rcases h with (rfl | h) | h
  · exact .refl a
  · unfold existentialTypesAreAlphaEquivalent at h
    split at h
    · exact .shape (.alpha h)
    · cases h
  · split at h
    · exact .dynamic a
    · exact .term a
    · exact .shape .intNumber
    · exact .shape .floatNumber
    · exact .shape (.literalInt _)
    · exact .shape (.literalNumber _)
    · exact .shape (.literalAtom _)
    · simp only [Bool.and_eq_true, decide_eq_true_eq] at h
      obtain ⟨rfl, h⟩ := h
      exact .shape (.array h)
    · rw [all_eq_true] at h
      exact .shape (.map fun expected hmem =>
        (mapFieldIsSubtype_iff _ expected).mp (h expected hmem))
    · exact .never b
    · cases h

theorem SameShape.mono (hle : ∀ a b, R a b → S a b) (h : SameShape R a b) : SameShape S a b := by
  cases h with
  | alpha h => exact .alpha h
  | intNumber => exact .intNumber
  | floatNumber => exact .floatNumber
  | literalInt value => exact .literalInt value
  | literalNumber value => exact .literalNumber value
  | literalAtom payload => exact .literalAtom payload
  | list hl hr h => exact .list hl hr (hle _ _ h)
  | tuple h => exact .tuple (h.imp hle)
  | array h => exact .array (hle _ _ h)
  | map h => exact .map fun expected hmem => (h expected hmem).mono hle
  | named hl h => exact .named hl (h.imp fun _ _ h => ⟨hle _ _ h.1, hle _ _ h.2⟩)
  | function hparams hret => exact .function (hparams.imp fun _ _ h => hle _ _ h) (hle _ _ hret)

theorem Compares.mono (hle : ∀ a b, R a b → S a b) (h : Compares R a b) : Compares S a b := by
  cases h with
  | refl => exact .refl a
  | dynamic => exact .dynamic a
  | term => exact .term a
  | never => exact .never b
  | unionLeft h => exact .unionLeft fun item hitem => hle _ _ (h item hitem)
  | unionRight hitem h => exact .unionRight hitem (hle _ _ h)
  | shape h => exact .shape (h.mono hle)

theorem isSubtype_isSubtypeWithAliases (h : isSubtype a b = true) : IsSubtype a b := by
  rw [IsSubtype, isSubtypeWithAliases, h]
  rfl

theorem optionRepresentation_eq_none (hb : isCompilerNamedType b = false) :
    optionRepresentation a b = none := by
  simp only [isCompilerNamedType, Bool.or_eq_false_iff] at hb
  have hinner : optionInnerType b = none := by simpa using hb.1.1.2
  rw [optionRepresentation, hinner]

theorem portableListElement_named_isSome {module : Option String} {name : String}
    (hlength : as.length = bs.length) {c : Ty}
    (h : portableListElement (.named module name as) = some c) :
    ∃ d, portableListElement (.named module name bs) = some d := by
  unfold portableListElement at h
  split at h
  · next hlist => cases hlist
  · next hname =>
    cases hname
    split at h
    · next hlist =>
      obtain ⟨d, rfl⟩ := length_eq_one_iff.mp hlength.symm
      exact ⟨d, if_pos hlist⟩
    · cases h
  · cases h

theorem portableListElement_named_eq_none {module : Option String} {name : String}
    (hlength : as.length = bs.length)
    (h : ∀ c d, portableListElement (.named module name as) = some c →
      portableListElement (.named module name bs) = some d → False) :
    portableListElement (.named module name as) = none := by
  rw [Option.eq_none_iff_forall_ne_some]
  intro c hc
  obtain ⟨d, hd⟩ := portableListElement_named_isSome hlength hc
  exact h c d hc hd

/-- Every comparison that succeeds is one of the ways. -/
theorem compares_of_isSubtype (ha : isCompilerNamedType a = false)
    (hb : isCompilerNamedType b = false) (h : IsSubtype a b) : Compares IsSubtype a b := by
  rw [IsSubtype, isSubtypeWithAliases, Bool.or_eq_true] at h
  rcases h with h | h
  · exact (isSubtype_compares ha hb h).mono fun _ _ => isSubtype_isSubtypeWithAliases
  split at h
  · next hl hr => exact .shape (.list hl hr h)
  next hnone =>
  split at h
  · next ho =>
    rw [optionRepresentation_eq_none hb] at ho
    cases ho
  · next ho =>
    rw [optionRepresentation_eq_none hb] at ho
    cases ho
  split at h
  · exact .unionLeft (by simpa using h)
  · obtain ⟨item, hitem, h⟩ : ∃ item ∈ _, IsSubtype a item := by simpa using h
    exact .unionRight hitem h
  · simp only [Bool.and_eq_true, decide_eq_true_eq, all_eq_true] at h
    exact .shape (.tuple (List.forall₂_iff_zip.mpr
      ⟨h.1, fun hmem => h.2 ⟨_, hmem⟩ (mem_attach _ _)⟩))
  · simp only [Bool.and_eq_true, decide_eq_true_eq] at h
    obtain ⟨rfl, h⟩ := h
    exact .shape (.array h)
  · refine .shape (.map fun expected hmem => ?_)
    have hfield := all_eq_true.mp h ⟨expected, hmem⟩ (mem_attach _ _)
    dsimp only at hfield
    unfold FieldMatches
    split at hfield
    · next hfind =>
      rw [hfind]
      simpa using hfield
    next field hfind =>
    rw [hfind]
    simp only [Bool.and_eq_true, Bool.not_eq_true', Bool.and_eq_false_iff,
      Bool.not_eq_false'] at hfield
    refine ⟨fun hrequired => ?_, hfield.2⟩
    exact hfield.1.resolve_left (by rw [hrequired]; decide)
  · next hl _ _ =>
    simp only [Bool.and_eq_true, decide_eq_true_eq, all_eq_true] at h
    obtain ⟨⟨⟨rfl, rfl⟩, hlength⟩, h⟩ := h
    have hargs : List.Forall₂ (fun a b => IsSubtype a b ∧ IsSubtype b a) _ _ :=
      List.forall₂_iff_zip.mpr ⟨hlength, fun hmem => h ⟨_, hmem⟩ (mem_attach _ _)⟩
    exact .shape (.named (portableListElement_named_eq_none hlength hnone) hargs)
  · simp only [Bool.and_eq_true, decide_eq_true_eq, all_eq_true] at h
    have hparams : List.Forall₂ (fun p q => IsSubtype q p) _ _ :=
      List.forall₂_iff_zip.mpr ⟨h.1.1, fun hmem => h.1.2 ⟨_, hmem⟩ (mem_attach _ _)⟩
    exact .shape (.function hparams h.2)
  · cases h

theorem IsSubtype.refl (a : Ty) : IsSubtype a a :=
  isSubtype_isSubtypeWithAliases (by unfold isSubtype; simp)

theorem optionRepresentation_union (items : List Ty) (b : Ty) :
    optionRepresentation (.union items) b = none := by
  unfold optionRepresentation
  split <;> rfl

theorem IsSubtype.unionLeft {items : List Ty} {b : Ty} (h : ∀ item ∈ items, IsSubtype item b) :
    IsSubtype (.union items) b := by
  rw [IsSubtype, isSubtypeWithAliases, Bool.or_eq_true]
  right
  split
  · next hl _ => cases hl
  split
  · rfl
  · next ho => cases (optionRepresentation_union items b).symm.trans ho
  · simpa using h

/-- A union below a type: each of its members is, unless the two are the same type. -/
theorem IsSubtype.of_union {items : List Ty} {b : Ty} (h : IsSubtype (.union items) b) :
    b = .union items ∨ ∀ item ∈ items, IsSubtype item b := by
  rw [IsSubtype, isSubtypeWithAliases, Bool.or_eq_true] at h
  rcases h with h | h
  · unfold isSubtype at h
    simp only [existentialTypesAreAlphaEquivalent, areUnitEquivalentTypes, isUnitNamedType,
      isUnitLiteralType, areTemplateHtmlEquivalentTypes, isTemplateHtmlNamedType,
      isInternalHtmlValueType, Bool.false_and, Bool.or_false, Bool.or_eq_true,
      decide_eq_true_eq] at h
    rcases h with rfl | h
    · exact .inl rfl
    right
    intro item _
    cases b <;> simp at h
    all_goals exact isSubtype_isSubtypeWithAliases (by simp [isSubtype])
  · right
    split at h
    · next hl _ => cases hl
    split at h
    · next ho => cases (optionRepresentation_union items b).symm.trans ho
    · next ho => cases (optionRepresentation_union items b).symm.trans ho
    · simpa using h

/-- Below one member is below the union, also where the smaller type is a union itself. -/
theorem IsSubtype.unionRight {a item : Ty} {items : List Ty} (hitem : item ∈ items)
    (h : IsSubtype a item) : IsSubtype a (.union items) := by
  by_cases hunion : ∃ members, a = .union members
  · obtain ⟨members, rfl⟩ := hunion
    refine .unionLeft fun member hmember => ?_
    rcases h.of_union with hsame | hall
    · rw [hsame] at hitem
      exact .unionRight hitem (.unionRight hmember (.refl member))
    · exact .unionRight hitem (hall member hmember)
  · rw [IsSubtype, isSubtypeWithAliases, Bool.or_eq_true]
    right
    split
    · next hr => cases hr
    split
    · rfl
    · next ho => cases ho
    split
    · exact (hunion ⟨_, rfl⟩).elim
    · cases ‹Ty.union items = Ty.union _›
      simp only [any_eq_true]
      exact ⟨⟨item, hitem⟩, mem_attach _ _, h⟩
    case h_8 hother _ _ _ _ _ _ =>
      exact (hother items _hr _ho rfl HEq.rfl HEq.rfl).elim
    all_goals simp_all
termination_by sizeOf a
decreasing_by
  all_goals
    have := sizeOf_lt_of_mem hmember
    subst_vars
    simp
    omega

theorem isSubtype_of_sameShape (hb : isCompilerNamedType b = false)
    (h : SameShape IsSubtype a b) : IsSubtype a b := by
  have ho : optionRepresentation a b = none := optionRepresentation_eq_none hb
  cases h with
  | alpha h => exact isSubtype_isSubtypeWithAliases (by unfold isSubtype; simp [h])
  | intNumber | floatNumber | literalInt | literalNumber | literalAtom =>
    exact isSubtype_isSubtypeWithAliases (by simp [isSubtype])
  | list hl hr h =>
    rw [IsSubtype, isSubtypeWithAliases, Bool.or_eq_true]
    right
    split
    · next hl' hr' =>
      cases hl.symm.trans hl'
      cases hr.symm.trans hr'
      exact h
    · next hnone => exact (hnone _ _ hl hr).elim
  | tuple h =>
    have hzip := List.forall₂_iff_zip.mp h
    rw [IsSubtype, isSubtypeWithAliases, Bool.or_eq_true]
    right
    split
    · next hl _ => cases hl
    · split <;> simp_all
  | array h =>
    rw [IsSubtype, isSubtypeWithAliases, Bool.or_eq_true]
    right
    split
    · next hl _ => cases hl
    · split <;> simp_all
  | map h =>
    rw [IsSubtype, isSubtypeWithAliases, Bool.or_eq_true]
    right
    split
    · next hl _ => cases hl
    split
    · rfl
    · next ho => cases ho
    refine all_eq_true.mpr fun ⟨expected, hmem⟩ _ => ?_
    have hfield := h expected hmem
    unfold FieldMatches at hfield
    dsimp only
    split
    · next hfind =>
      rw [hfind] at hfield
      simp [hfield]
    · next field hfind =>
      rw [hfind] at hfield
      cases hreq : expected.required <;> simp_all
  | named hl h =>
    have hzip := List.forall₂_iff_zip.mp h
    rw [IsSubtype, isSubtypeWithAliases, Bool.or_eq_true]
    right
    split
    · next hl' _ => cases hl.symm.trans hl'
    · split <;> simp_all
  | function hparams hret =>
    have hzip := List.forall₂_iff_zip.mp hparams
    rw [IsSubtype, isSubtypeWithAliases, Bool.or_eq_true]
    right
    split
    · next hl _ => cases hl
    · split <;> simp_all

theorem isSubtype_of_compares (hb : isCompilerNamedType b = false)
    (h : Compares IsSubtype a b) : IsSubtype a b := by
  cases h with
  | refl => exact .refl a
  | dynamic | term => exact isSubtype_isSubtypeWithAliases (by simp [isSubtype])
  | never => exact isSubtype_isSubtypeWithAliases (by unfold isSubtype; cases b <;> simp)
  | unionLeft h => exact .unionLeft h
  | unionRight hitem h => exact h.unionRight hitem
  | shape h => exact isSubtype_of_sameShape hb h

end Terlan.Typeck
