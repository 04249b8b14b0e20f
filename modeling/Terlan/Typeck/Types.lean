/-
  The types of the checker, and the comparison that needs no aliases. No alias table is
  modelled: the types here name no alias, and the expansion of such a type is the type itself.
-/
import Mathlib.Data.List.Basic

namespace Terlan.Typeck

/-! ## Types -/

abbrev TypeVarId := Nat

inductive ArraySize where
  | known (size : Nat)
  | param (id : TypeVarId)
deriving DecidableEq

/-- A field of a map type. -/
structure MapFieldType (τ : Type) where
  key : String
  value : τ
  required : Bool

/-- `Type`. -/
inductive Ty where
  | int
  | float
  | number
  | binary
  | atom
  | bool
  | term
  | dynamic
  | never
  | literalAtom (payload : String)
  | literalInt (value : Int64)
  | literalBool (value : Bool)
  | var (id : TypeVarId)
  | placeholder
  | apply (constructor : TypeVarId) (args : List Ty)
  | existential (params : List TypeVarId) (body : Ty)
  | list (elem : Ty)
  | tuple (items : List Ty)
  | union (items : List Ty)
  | map (fields : List (MapFieldType Ty))
  | array (size : ArraySize) (elem : Ty)
  | named (module : Option String) (name : String) (args : List Ty)
  | function (params : List Ty) (ret : Ty)

/-- Induction over a type: what holds of everything directly inside a type holds of it. -/
theorem Ty.induction {P : Ty → Prop} (int : P .int) (float : P .float) (number : P .number)
    (binary : P .binary) (atom : P .atom) (bool : P .bool) (term : P .term)
    (dynamic : P .dynamic) (never : P .never) (literalAtom : ∀ payload, P (.literalAtom payload))
    (literalInt : ∀ value, P (.literalInt value)) (literalBool : ∀ value, P (.literalBool value))
    (var : ∀ id, P (.var id)) (placeholder : P .placeholder)
    (apply : ∀ constructor args, (∀ arg ∈ args, P arg) → P (.apply constructor args))
    (existential : ∀ params body, P body → P (.existential params body))
    (list : ∀ elem, P elem → P (.list elem))
    (tuple : ∀ items, (∀ item ∈ items, P item) → P (.tuple items))
    (union : ∀ items, (∀ item ∈ items, P item) → P (.union items))
    (map : ∀ fields : List (MapFieldType Ty), (∀ field ∈ fields, P field.value) → P (.map fields))
    (array : ∀ size elem, P elem → P (.array size elem))
    (named : ∀ module name args, (∀ arg ∈ args, P arg) → P (.named module name args))
    (function : ∀ params ret, (∀ param ∈ params, P param) → P ret → P (.function params ret))
    (ty : Ty) : P ty :=
  @Ty.rec P (fun items => ∀ item ∈ items, P item) (fun fields => ∀ field ∈ fields, P field.value)
    (fun field => P field.value)
    int float number binary atom bool term dynamic never literalAtom literalInt literalBool var
    placeholder apply existential list tuple union map array named function
    (fun _ h => by cases h)
    (fun _ _ head tail => List.forall_mem_cons.mpr ⟨head, tail⟩)
    (fun _ h => by cases h)
    (fun _ _ head tail => List.forall_mem_cons.mpr ⟨head, tail⟩)
    (fun _ _ _ h => h) ty

/-! ## Equality -/

mutual

/-- The derived `PartialEq`: the same variant with equal contents. -/
def Ty.beq : Ty → Ty → Bool
  | .int, other => match other with | .int => true | _ => false
  | .float, other => match other with | .float => true | _ => false
  | .number, other => match other with | .number => true | _ => false
  | .binary, other => match other with | .binary => true | _ => false
  | .atom, other => match other with | .atom => true | _ => false
  | .bool, other => match other with | .bool => true | _ => false
  | .term, other => match other with | .term => true | _ => false
  | .dynamic, other => match other with | .dynamic => true | _ => false
  | .never, other => match other with | .never => true | _ => false
  | .literalAtom a, other => match other with | .literalAtom b => a == b | _ => false
  | .literalInt a, other => match other with | .literalInt b => a == b | _ => false
  | .literalBool a, other => match other with | .literalBool b => a == b | _ => false
  | .var a, other => match other with | .var b => a == b | _ => false
  | .placeholder, other => match other with | .placeholder => true | _ => false
  | .apply a as, other =>
    match other with | .apply b bs => a == b && beqTypes as bs | _ => false
  | .existential as a, other =>
    match other with | .existential bs b => as == bs && a.beq b | _ => false
  | .list a, other => match other with | .list b => a.beq b | _ => false
  | .tuple as, other => match other with | .tuple bs => beqTypes as bs | _ => false
  | .union as, other => match other with | .union bs => beqTypes as bs | _ => false
  | .map as, other => match other with | .map bs => beqMapFields as bs | _ => false
  | .array m a, other => match other with | .array n b => m == n && a.beq b | _ => false
  | .named m a as, other =>
    match other with | .named n b bs => m == n && a == b && beqTypes as bs | _ => false
  | .function as a, other =>
    match other with | .function bs b => beqTypes as bs && a.beq b | _ => false

def beqTypes : List Ty → List Ty → Bool
  | [], other => other.isEmpty
  | a :: as, other => match other with | b :: bs => a.beq b && beqTypes as bs | [] => false

def beqMapFields : List (MapFieldType Ty) → List (MapFieldType Ty) → Bool
  | [], other => other.isEmpty
  | ⟨key, a, required⟩ :: as, other =>
    match other with
    | ⟨key', b, required'⟩ :: bs =>
      key == key' && a.beq b && required == required' && beqMapFields as bs
    | [] => false

end

mutual

theorem Ty.beq_iff : ∀ a b : Ty, a.beq b = true ↔ a = b
  | .int, b => by cases b <;> simp [Ty.beq]
  | .float, b => by cases b <;> simp [Ty.beq]
  | .number, b => by cases b <;> simp [Ty.beq]
  | .binary, b => by cases b <;> simp [Ty.beq]
  | .atom, b => by cases b <;> simp [Ty.beq]
  | .bool, b => by cases b <;> simp [Ty.beq]
  | .term, b => by cases b <;> simp [Ty.beq]
  | .dynamic, b => by cases b <;> simp [Ty.beq]
  | .never, b => by cases b <;> simp [Ty.beq]
  | .literalAtom _, b => by cases b <;> simp [Ty.beq]
  | .literalInt _, b => by cases b <;> simp [Ty.beq]
  | .literalBool _, b => by cases b <;> simp [Ty.beq]
  | .var _, b => by cases b <;> simp [Ty.beq]
  | .placeholder, b => by cases b <;> simp [Ty.beq]
  | .apply _ args, b => by cases b <;> simp [Ty.beq, beqTypes_iff args]
  | .existential _ body, b => by cases b <;> simp [Ty.beq, Ty.beq_iff body]
  | .list elem, b => by cases b <;> simp [Ty.beq, Ty.beq_iff elem]
  | .tuple items, b => by cases b <;> simp [Ty.beq, beqTypes_iff items]
  | .union items, b => by cases b <;> simp [Ty.beq, beqTypes_iff items]
  | .map fields, b => by cases b <;> simp [Ty.beq, beqMapFields_iff fields]
  | .array _ elem, b => by cases b <;> simp [Ty.beq, Ty.beq_iff elem]
  | .named _ _ args, b => by cases b <;> simp [Ty.beq, beqTypes_iff args, and_assoc]
  | .function params ret, b => by
    cases b <;> simp [Ty.beq, beqTypes_iff params, Ty.beq_iff ret]

theorem beqTypes_iff : ∀ as bs : List Ty, beqTypes as bs = true ↔ as = bs
  | [], bs => by cases bs <;> simp [beqTypes]
  | a :: as, [] => by simp [beqTypes]
  | a :: as, b :: bs => by simp [beqTypes, Ty.beq_iff a b, beqTypes_iff as bs]

theorem beqMapFields_iff :
    ∀ as bs : List (MapFieldType Ty), beqMapFields as bs = true ↔ as = bs
  | [], bs => by cases bs <;> simp [beqMapFields]
  | ⟨key, a, required⟩ :: as, [] => by simp [beqMapFields]
  | ⟨key, a, required⟩ :: as, ⟨key', b, required'⟩ :: bs => by
    simp [beqMapFields, Ty.beq_iff a b, beqMapFields_iff as bs, and_assoc]

end

instance : DecidableEq Ty := fun a b => decidable_of_iff _ (Ty.beq_iff a b)

/-! ## Types with a spelling of their own -/

/-- The element of an intrinsic or standard-library list type. -/
def portableListElement : Ty → Option Ty
  | .list element => some element
  | .named (some module) name [element] =>
    if module = "std.collections.List" ∧ name = "List" then some element else none
  | _ => none

def isUnitNamedType : Ty → Bool
  | .named none name [] => name = "Unit"
  | .named (some module) name [] => module = "std.core.Unit" && name = "Unit"
  | _ => false

def isUnitLiteralType : Ty → Bool
  | .literalAtom atom => atom = "unit"
  | _ => false

def areUnitEquivalentTypes (left right : Ty) : Bool :=
  (isUnitNamedType left && isUnitLiteralType right) ||
    (isUnitLiteralType left && isUnitNamedType right)

def isTemplateHtmlNamedType : Ty → Bool
  | .named (some module) name [] =>
    (module = "Template" || module = "std.template.Template") && name = "Html"
  | _ => false

def isInternalHtmlValueType : Ty → Bool
  | .named none name [_] => name = "Html"
  | _ => false

def areTemplateHtmlEquivalentTypes (left right : Ty) : Bool :=
  (isTemplateHtmlNamedType left && isTemplateHtmlNamedType right) ||
    (isTemplateHtmlNamedType left && isInternalHtmlValueType right) ||
      (isInternalHtmlValueType left && isTemplateHtmlNamedType right)

/-! ## Renaming -/

/-- A map of variables that was collected from pairs: the last pair of a variable counts. -/
def renameVar (mapping : List (TypeVarId × TypeVarId)) (id : TypeVarId) : TypeVarId :=
  (mapping.reverse.lookup id).getD id

def ArraySize.rename (mapping : List (TypeVarId × TypeVarId)) : ArraySize → ArraySize
  | .known size => .known size
  | .param id => .param (renameVar mapping id)

mutual

def renameTypeVars (mapping : List (TypeVarId × TypeVarId)) : Ty → Ty
  | .var id => .var (renameVar mapping id)
  | .apply constructor args =>
    .apply (renameVar mapping constructor) (renameTypes mapping args)
  | .existential params body =>
    .existential (params.map (renameVar mapping)) (renameTypeVars mapping body)
  | .list elem => .list (renameTypeVars mapping elem)
  | .tuple items => .tuple (renameTypes mapping items)
  | .union items => .union (renameTypes mapping items)
  | .map fields => .map (renameMapFields mapping fields)
  | .named module name args => .named module name (renameTypes mapping args)
  | .function params ret => .function (renameTypes mapping params) (renameTypeVars mapping ret)
  | .array size elem => .array (size.rename mapping) (renameTypeVars mapping elem)
  | .int => .int
  | .float => .float
  | .number => .number
  | .binary => .binary
  | .atom => .atom
  | .bool => .bool
  | .term => .term
  | .dynamic => .dynamic
  | .never => .never
  | .literalAtom payload => .literalAtom payload
  | .literalInt value => .literalInt value
  | .literalBool value => .literalBool value
  | .placeholder => .placeholder

def renameTypes (mapping : List (TypeVarId × TypeVarId)) : List Ty → List Ty
  | [] => []
  | ty :: types => renameTypeVars mapping ty :: renameTypes mapping types

def renameMapFields (mapping : List (TypeVarId × TypeVarId)) :
    List (MapFieldType Ty) → List (MapFieldType Ty)
  | [] => []
  | ⟨key, value, required⟩ :: fields =>
    ⟨key, renameTypeVars mapping value, required⟩ :: renameMapFields mapping fields

end

/-- Renames the binders on the right to those on the left and compares the bodies. -/
def existentialTypesAreAlphaEquivalent : Ty → Ty → Bool
  | .existential leftParams leftBody, .existential rightParams rightBody =>
    leftParams.length = rightParams.length &&
      renameTypeVars (rightParams.zip leftParams) rightBody = leftBody
  | _, _ => false

/-! ## The structural comparison -/

mutual

/-- Whether the first type is a subtype of the second one. -/
def isSubtype : Ty → Ty → Bool
  | lhs, rhs =>
    lhs = rhs || existentialTypesAreAlphaEquivalent lhs rhs || areUnitEquivalentTypes lhs rhs ||
      areTemplateHtmlEquivalentTypes lhs rhs ||
        match lhs, rhs with
        | _, .dynamic => true
        | _, .term => true
        | .int, .number => true
        | .float, .number => true
        | .literalInt _, .int => true
        | .literalInt _, .number => true
        | .literalAtom _, .atom => true
        | .array lhsSize lhsElem, .array rhsSize rhsElem =>
          lhsSize = rhsSize && isSubtype lhsElem rhsElem
        | .map lhsFields, .map rhsFields => rhsFields.all (mapFieldIsSubtype lhsFields)
        | .never, _ => true
        | _, _ => false

/-- The first field with the key decides; a field that is absent may be skipped when it is
optional. -/
def mapFieldIsSubtype : List (MapFieldType Ty) → MapFieldType Ty → Bool
  | [], rhsField => !rhsField.required
  | ⟨key, value, required⟩ :: fields, rhsField =>
    if key = rhsField.key then
      !(rhsField.required && !required) && isSubtype value rhsField.value
    else mapFieldIsSubtype fields rhsField

end

end Terlan.Typeck
