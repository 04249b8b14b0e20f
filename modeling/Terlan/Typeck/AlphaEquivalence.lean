/-
  Existential types up to the names of their binders. Two packages are alpha-equivalent when an
  injective renaming of the variables of one that fixes its free variables gives the other. The
  comparison of the checker replaces the outer binders of the right package only: it lets a free
  variable be captured, and it takes the names of nested binders for part of the type.
-/
import Terlan.Typeck.Preorder

namespace Terlan.Typeck

open List

/-! ## Variables -/

def ArraySize.vars : ArraySize → List TypeVarId
  | .known _ => []
  | .param id => [id]

mutual

def freeVars : Ty → List TypeVarId
  | .var id => [id]
  | .apply constructor args => constructor :: freeVarsOfTypes args
  | .existential params body => (freeVars body).filter fun id => id ∉ params
  | .list elem => freeVars elem
  | .tuple items => freeVarsOfTypes items
  | .union items => freeVarsOfTypes items
  | .map fields => freeVarsOfFields fields
  | .named _ _ args => freeVarsOfTypes args
  | .function params ret => freeVarsOfTypes params ++ freeVars ret
  | .array size elem => size.vars ++ freeVars elem
  | _ => []

def freeVarsOfTypes : List Ty → List TypeVarId
  | [] => []
  | ty :: types => freeVars ty ++ freeVarsOfTypes types

def freeVarsOfFields : List (MapFieldType Ty) → List TypeVarId
  | [] => []
  | ⟨_, value, _⟩ :: fields => freeVars value ++ freeVarsOfFields fields

end

mutual

/-- The binders of all packages inside, in order. -/
def binders : Ty → List TypeVarId
  | .existential params body => params ++ binders body
  | .apply _ args => bindersOfTypes args
  | .list elem => binders elem
  | .tuple items => bindersOfTypes items
  | .union items => bindersOfTypes items
  | .map fields => bindersOfFields fields
  | .named _ _ args => bindersOfTypes args
  | .function params ret => bindersOfTypes params ++ binders ret
  | .array _ elem => binders elem
  | _ => []

def bindersOfTypes : List Ty → List TypeVarId
  | [] => []
  | ty :: types => binders ty ++ bindersOfTypes types

def bindersOfFields : List (MapFieldType Ty) → List TypeVarId
  | [] => []
  | ⟨_, value, _⟩ :: fields => binders value ++ bindersOfFields fields

end

/-! ## Alpha-equivalence -/

/-- No two of the variables get one name. -/
def MergesNone (mapping : List (TypeVarId × TypeVarId)) (ids : List TypeVarId) : Prop :=
  ∀ x ∈ ids, ∀ y ∈ ids, renameVar mapping x = renameVar mapping y → x = y

/-- One type becomes the other by a renaming that merges no variables and fixes the free ones. -/
def AlphaEquivalent (lhs rhs : Ty) : Prop :=
  ∃ mapping, MergesNone mapping (typeVars rhs) ∧ (∀ x ∈ freeVars rhs, renameVar mapping x = x) ∧
    renameTypeVars mapping rhs = lhs

/-- The right binders are replaced by the left ones. -/
abbrev binderMap (ps qs : List TypeVarId) : List (TypeVarId × TypeVarId) := qs.zip ps

/-- The left binders repeat where the right ones do, and none of them is another variable of the
right body. -/
def Separate (ps qs : List TypeVarId) (b : Ty) : Prop :=
  (∀ x ∈ qs.zip ps, ∀ y ∈ qs.zip ps, x.1 = y.1 ↔ x.2 = y.2) ∧ ∀ x ∈ typeVars b, x ∉ qs → x ∉ ps

/-- Nested packages bind the same names, after the replacement of the outer binders. -/
def SameInside (ps qs : List TypeVarId) (a b : Ty) : Prop :=
  binders a = (binders b).map (renameVar (binderMap ps qs))

/-! ## Lists of types -/

@[simp] theorem renameTypes_eq (mapping : List (TypeVarId × TypeVarId)) (types : List Ty) :
    renameTypes mapping types = types.map (renameTypeVars mapping) := by
  induction types with
  | nil => rfl
  | cons ty types ih => rw [renameTypes, ih, map_cons]

@[simp] theorem renameMapFields_eq (mapping : List (TypeVarId × TypeVarId))
    (fields : List (MapFieldType Ty)) : renameMapFields mapping fields =
      fields.map fun field => ⟨field.key, renameTypeVars mapping field.value, field.required⟩ := by
  induction fields with
  | nil => rfl
  | cons field fields ih => rw [renameMapFields, ih, map_cons]

@[simp] theorem typeVarsOfTypes_eq (types : List Ty) : typeVarsOfTypes types = types.flatMap typeVars := by
  induction types with
  | nil => rfl
  | cons ty types ih => rw [typeVarsOfTypes, ih, flatMap_cons]

variable (fields : List (MapFieldType Ty))

@[simp] theorem typeVarsOfFields_eq :
    typeVarsOfFields fields = fields.flatMap fun field => typeVars field.value := by
  induction fields with
  | nil => rfl
  | cons field fields ih => rw [typeVarsOfFields, ih, flatMap_cons]

@[simp] theorem freeVarsOfTypes_eq (types : List Ty) : freeVarsOfTypes types = types.flatMap freeVars := by
  induction types with
  | nil => rfl
  | cons ty types ih => rw [freeVarsOfTypes, ih, flatMap_cons]

@[simp] theorem freeVarsOfFields_eq :
    freeVarsOfFields fields = fields.flatMap fun field => freeVars field.value := by
  induction fields with
  | nil => rfl
  | cons field fields ih => rw [freeVarsOfFields, ih, flatMap_cons]

@[simp] theorem bindersOfTypes_eq (types : List Ty) : bindersOfTypes types = types.flatMap binders := by
  induction types with
  | nil => rfl
  | cons ty types ih => rw [bindersOfTypes, ih, flatMap_cons]

@[simp] theorem bindersOfFields_eq :
    bindersOfFields fields = fields.flatMap fun field => binders field.value := by
  induction fields with
  | nil => rfl
  | cons field fields ih => rw [bindersOfFields, ih, flatMap_cons]

/-! ## What renaming depends on -/

@[simp] theorem typeVars_array (size : ArraySize) (elem : Ty) :
    typeVars (.array size elem) = size.vars ++ typeVars elem := by
  cases size <;> rfl

/-- A variable of a type is free or bound in it. -/
theorem mem_typeVars {ty : Ty} {x : TypeVarId} (mem : x ∈ typeVars ty) : x ∈ freeVars ty ∨ x ∈ binders ty := by
  induction ty using Ty.induction generalizing x with
  | existential params body ih =>
    simp only [typeVars, freeVars, binders, mem_append, mem_filter, decide_eq_true_eq] at mem ⊢
    by_cases bound : x ∈ params
    · exact .inr (.inl bound)
    · rcases ih (mem.resolve_left bound) with free | inside
      · exact .inl ⟨free, bound⟩
      · exact .inr (.inr inside)
  | _ =>
    simp only [typeVars, typeVars_array, freeVars, binders, typeVarsOfTypes_eq, typeVarsOfFields_eq,
      freeVarsOfTypes_eq, freeVarsOfFields_eq, bindersOfTypes_eq, bindersOfFields_eq, mem_append,
      mem_cons, mem_flatMap] at mem ⊢
    grind

theorem freeVars_subset {ty : Ty} {x : TypeVarId} (mem : x ∈ freeVars ty) : x ∈ typeVars ty := by
  induction ty using Ty.induction generalizing x with
  | existential params body ih => exact mem_append_right _ (ih (mem_filter.mp mem).1)
  | _ =>
    simp only [typeVars, typeVars_array, freeVars, typeVarsOfTypes_eq, typeVarsOfFields_eq,
      freeVarsOfTypes_eq, freeVarsOfFields_eq, mem_append, mem_cons, mem_flatMap] at mem ⊢
    grind

theorem ArraySize.rename_eq_iff {m k : List (TypeVarId × TypeVarId)} {size : ArraySize} :
    size.rename m = size.rename k ↔ ∀ x ∈ size.vars, renameVar m x = renameVar k x := by
  cases size <;> simp [ArraySize.rename, ArraySize.vars]

/-- Two renamings do the same exactly when they agree on all variables. -/
theorem renameTypeVars_eq_iff {m k : List (TypeVarId × TypeVarId)} {ty : Ty} :
    renameTypeVars m ty = renameTypeVars k ty ↔ ∀ x ∈ typeVars ty, renameVar m x = renameVar k x := by
  have types : ∀ {items : List Ty},
      (∀ item ∈ items, renameTypeVars m item = renameTypeVars k item ↔
        ∀ x ∈ typeVars item, renameVar m x = renameVar k x) →
      (items.map (renameTypeVars m) = items.map (renameTypeVars k) ↔
        ∀ x ∈ items.flatMap typeVars, renameVar m x = renameVar k x) := by
    intro items each
    rw [map_inj_left, forall_mem_flatMap]
    exact forall₂_congr each
  induction ty using Ty.induction with
  | apply constructor args ih =>
    simp only [renameTypeVars, renameTypes_eq, Ty.apply.injEq, types ih, typeVars, typeVarsOfTypes_eq,
      forall_mem_cons]
  | existential params body ih =>
    simp only [renameTypeVars, Ty.existential.injEq, ih, typeVars, forall_mem_append, map_inj_left]
  | tuple items ih | union items ih =>
    simp only [renameTypeVars, renameTypes_eq, Ty.tuple.injEq, Ty.union.injEq, types ih, typeVars,
      typeVarsOfTypes_eq]
  | named module name args ih =>
    simp only [renameTypeVars, renameTypes_eq, Ty.named.injEq, types ih, typeVars, typeVarsOfTypes_eq,
      true_and]
  | function params ret ih ihRet =>
    simp only [renameTypeVars, renameTypes_eq, Ty.function.injEq, types ih, ihRet, typeVars,
      typeVarsOfTypes_eq, forall_mem_append]
  | array size elem ih =>
    simp only [renameTypeVars, Ty.array.injEq, ArraySize.rename_eq_iff, ih, typeVars_array,
      forall_mem_append]
  | map fields ih =>
    simp only [renameTypeVars, renameMapFields_eq, Ty.map.injEq, typeVars, typeVarsOfFields_eq,
      map_inj_left, MapFieldType.mk.injEq, true_and, and_true, forall_mem_flatMap]
    exact forall₂_congr ih
  | list elem ih => simp only [renameTypeVars, Ty.list.injEq, ih, typeVars]
  | _ => simp [renameTypeVars, typeVars]

variable {m : List (TypeVarId × TypeVarId)}

/-- Variables that are read off each type of a list. -/
theorem flatMap_rename {g : Ty → List TypeVarId} {types : List Ty}
    (each : ∀ ty ∈ types, g (renameTypeVars m ty) = (g ty).map (renameVar m)) :
    (types.map (renameTypeVars m)).flatMap g = (types.flatMap g).map (renameVar m) := by
  rw [flatMap_map, map_flatMap]
  exact flatMap_congr each

theorem flatMap_rename_fields {g : Ty → List TypeVarId} {fields : List (MapFieldType Ty)}
    (each : ∀ field ∈ fields, g (renameTypeVars m field.value) = (g field.value).map (renameVar m)) :
    ((renameMapFields m fields).flatMap fun field => g field.value) =
      (fields.flatMap fun field => g field.value).map (renameVar m) := by
  rw [renameMapFields_eq, flatMap_map, map_flatMap]
  exact flatMap_congr each

theorem ArraySize.vars_rename (m : List (TypeVarId × TypeVarId)) (size : ArraySize) :
    (size.rename m).vars = size.vars.map (renameVar m) := by
  cases size <;> rfl

theorem binders_rename (m : List (TypeVarId × TypeVarId)) (ty : Ty) :
    binders (renameTypeVars m ty) = (binders ty).map (renameVar m) := by
  induction ty using Ty.induction with
  | existential params body ih => simp only [renameTypeVars, binders, ih, map_append]
  | map fields ih => simp only [renameTypeVars, binders, bindersOfFields_eq, flatMap_rename_fields ih]
  | function params ret ih ihRet =>
    simp only [renameTypeVars, renameTypes_eq, binders, bindersOfTypes_eq, flatMap_rename ih, ihRet,
      map_append]
  | apply constructor items ih | tuple items ih | union items ih | named module name items ih =>
    simp only [renameTypeVars, renameTypes_eq, binders, bindersOfTypes_eq, flatMap_rename ih]
  | list elem ih | array size elem ih => simp only [renameTypeVars, binders, ih]
  | _ => rfl

theorem typeVars_rename (m : List (TypeVarId × TypeVarId)) (ty : Ty) :
    typeVars (renameTypeVars m ty) = (typeVars ty).map (renameVar m) := by
  induction ty using Ty.induction with
  | existential params body ih => simp only [renameTypeVars, typeVars, ih, map_append]
  | map fields ih => simp only [renameTypeVars, typeVars, typeVarsOfFields_eq, flatMap_rename_fields ih]
  | function params ret ih ihRet =>
    simp only [renameTypeVars, renameTypes_eq, typeVars, typeVarsOfTypes_eq, flatMap_rename ih, ihRet,
      map_append]
  | apply constructor items ih =>
    simp only [renameTypeVars, renameTypes_eq, typeVars, typeVarsOfTypes_eq, flatMap_rename ih, map_cons]
  | tuple items ih | union items ih | named module name items ih =>
    simp only [renameTypeVars, renameTypes_eq, typeVars, typeVarsOfTypes_eq, flatMap_rename ih]
  | array size elem ih =>
    simp only [renameTypeVars, typeVars_array, ArraySize.vars_rename, ih, map_append]
  | list elem ih => simp only [renameTypeVars, typeVars, ih]
  | _ => rfl

theorem MergesNone.subset {ids others : List TypeVarId}
    (apart : MergesNone m ids) (subset : others ⊆ ids) : MergesNone m others :=
  fun x memX y memY => apart x (subset memX) y (subset memY)

/-- A renaming that merges no variables renames the free ones. -/
theorem freeVars_rename {ty : Ty} (apart : MergesNone m (typeVars ty)) :
    freeVars (renameTypeVars m ty) = (freeVars ty).map (renameVar m) := by
  have types : ∀ {items : List Ty}, MergesNone m (items.flatMap typeVars) →
      (∀ item ∈ items, MergesNone m (typeVars item) →
        freeVars (renameTypeVars m item) = (freeVars item).map (renameVar m)) →
      (items.map (renameTypeVars m)).flatMap freeVars = (items.flatMap freeVars).map (renameVar m) :=
    fun apart each => flatMap_rename fun item mem =>
      each item mem (apart.subset fun _ inside => mem_flatMap.mpr ⟨item, mem, inside⟩)
  induction ty using Ty.induction with
  | existential params body ih =>
    have bodyApart : MergesNone m (typeVars body) := apart.subset (subset_append_right _ _)
    have stays : ∀ x ∈ freeVars body, renameVar m x ∈ params.map (renameVar m) ↔ x ∈ params := by
      intro x mem
      refine ⟨fun renamed => ?_, mem_map_of_mem⟩
      obtain ⟨y, memY, same⟩ := mem_map.mp renamed
      have isY := apart y (mem_append_left _ memY) x (mem_append_right _ (freeVars_subset mem)) same
      exact isY ▸ memY
    simp only [renameTypeVars, freeVars, ih bodyApart, filter_map]
    refine congrArg _ (filter_congr fun x mem => ?_)
    simp only [Function.comp_apply, stays x mem]
  | map fields ih =>
    simp only [typeVars, typeVarsOfFields_eq] at apart
    simp only [renameTypeVars, freeVars, freeVarsOfFields_eq]
    exact flatMap_rename_fields fun field mem =>
      ih field mem (apart.subset fun _ inside => mem_flatMap.mpr ⟨field, mem, inside⟩)
  | function params ret ih ihRet =>
    simp only [typeVars, typeVarsOfTypes_eq] at apart
    simp only [renameTypeVars, renameTypes_eq, freeVars, freeVarsOfTypes_eq, map_append,
      types (apart.subset (subset_append_left _ _)) ih,
      ihRet (apart.subset (subset_append_right _ _))]
  | apply constructor items ih =>
    simp only [typeVars, typeVarsOfTypes_eq] at apart
    simp only [renameTypeVars, renameTypes_eq, freeVars, freeVarsOfTypes_eq, map_cons,
      types (apart.subset (subset_cons_self _ _)) ih]
  | tuple items ih | union items ih | named module name items ih =>
    simp only [typeVars, typeVarsOfTypes_eq] at apart
    simp only [renameTypeVars, renameTypes_eq, freeVars, freeVarsOfTypes_eq, types apart ih]
  | array size elem ih =>
    rw [typeVars_array] at apart
    simp only [renameTypeVars, freeVars, ArraySize.vars_rename, map_append,
      ih (apart.subset (subset_append_right _ _))]
  | list elem ih => simp only [renameTypeVars, freeVars, ih apart]
  | _ => rfl

/-! ## An equivalence -/

theorem renameVar_nil (x : TypeVarId) : renameVar [] x = x := rfl

theorem renameTypeVars_nil (ty : Ty) : renameTypeVars [] ty = ty := by
  have types : ∀ {items : List Ty}, (∀ item ∈ items, renameTypeVars [] item = item) →
      items.map (renameTypeVars []) = items :=
    fun each => (map_congr_left each).trans (List.map_id _)
  have vars : ∀ ids : List TypeVarId, ids.map (renameVar []) = ids :=
    fun ids => (map_congr_left fun id _ => renameVar_nil id).trans (List.map_id _)
  induction ty using Ty.induction with
  | existential params body ih => simp only [renameTypeVars, vars, ih]
  | map fields ih =>
    have same : fields.map (fun field => MapFieldType.mk field.key (renameTypeVars [] field.value)
        field.required) = fields := by
      refine (map_congr_left fun field mem => ?_).trans (List.map_id _)
      rw [ih field mem]
      rfl
    simp only [renameTypeVars, renameMapFields_eq, same]
  | function params ret ih ihRet => simp only [renameTypeVars, renameTypes_eq, types ih, ihRet]
  | apply constructor items ih => simp only [renameTypeVars, renameTypes_eq, renameVar_nil, types ih]
  | tuple items ih | union items ih | named module name items ih =>
    simp only [renameTypeVars, renameTypes_eq, types ih]
  | array size elem ih => cases size <;> simp only [renameTypeVars, ArraySize.rename, renameVar_nil, ih]
  | list elem ih => simp only [renameTypeVars, ih]
  | _ => rfl

theorem AlphaEquivalent.refl (ty : Ty) : AlphaEquivalent ty ty :=
  ⟨[], fun _ _ _ _ same => same, fun _ _ => rfl, renameTypeVars_nil ty⟩

theorem lookup_of_mem {mapping : List (TypeVarId × TypeVarId)}
    (consistent : ∀ x ∈ mapping, ∀ y ∈ mapping, x.1 = y.1 → x.2 = y.2) {pair : TypeVarId × TypeVarId}
    (mem : pair ∈ mapping) : mapping.lookup pair.1 = some pair.2 := by
  induction mapping with
  | nil => exact absurd mem not_mem_nil
  | cons first rest ih =>
    obtain ⟨key, value⟩ := first
    rw [lookup_cons]
    by_cases same : pair.1 = key
    · rw [same, beq_self_eq_true]
      exact congrArg some (consistent (key, value) mem_cons_self pair mem same.symm)
    rw [beq_eq_false_iff_ne.mpr same]
    refine ih (fun x memX y memY => consistent x (mem_cons_of_mem _ memX) y (mem_cons_of_mem _ memY))
      ((mem_cons.mp mem).resolve_left ?_)
    rintro rfl
    exact same rfl

/-- A mapping without contradictions sends each key to its value. -/
theorem renameVar_of_mem {mapping : List (TypeVarId × TypeVarId)}
    (consistent : ∀ x ∈ mapping, ∀ y ∈ mapping, x.1 = y.1 → x.2 = y.2) {pair : TypeVarId × TypeVarId}
    (mem : pair ∈ mapping) : renameVar mapping pair.1 = pair.2 := by
  have found : mapping.reverse.lookup pair.1 = some pair.2 :=
    lookup_of_mem (fun x memX y memY => consistent x (mem_reverse.mp memX) y (mem_reverse.mp memY))
      (mem_reverse.mpr mem)
  rw [renameVar, found, Option.getD_some]

/-- Pairs of values at some variables, where equal keys have equal values. -/
theorem renameVar_listed {f g : TypeVarId → TypeVarId} {ids : List TypeVarId}
    (consistent : ∀ x ∈ ids, ∀ y ∈ ids, f x = f y → g x = g y) {x : TypeVarId} (mem : x ∈ ids) :
    renameVar (ids.map fun id => (f id, g id)) (f x) = g x := by
  refine @renameVar_of_mem _ ?_ (f x, g x) (mem_map.mpr ⟨x, mem, rfl⟩)
  intro first memFirst second memSecond same
  obtain ⟨y, memY, rfl⟩ := mem_map.mp memFirst
  obtain ⟨z, memZ, rfl⟩ := mem_map.mp memSecond
  exact consistent y memY z memZ same

theorem AlphaEquivalent.trans {a b c : Ty} (ab : AlphaEquivalent a b) (bc : AlphaEquivalent b c) :
    AlphaEquivalent a c := by
  obtain ⟨m, apartM, freeM, rfl⟩ := ab
  obtain ⟨k, apartK, freeK, rfl⟩ := bc
  have composed : ∀ x ∈ typeVars c, renameVar ((typeVars c).map fun id =>
      (id, renameVar m (renameVar k id))) x = renameVar m (renameVar k x) :=
    fun x mem => @renameVar_listed id _ _ (fun _ _ _ _ same => congrArg _ (congrArg _ same)) x mem
  have inB : ∀ x ∈ typeVars c, renameVar k x ∈ typeVars (renameTypeVars k c) := by
    intro x mem
    rw [typeVars_rename]
    exact mem_map_of_mem mem
  refine ⟨(typeVars c).map fun id => (id, renameVar m (renameVar k id)), fun x memX y memY same => ?_,
    fun x mem => ?_, ?_⟩
  · rw [composed x memX, composed y memY] at same
    exact apartK x memX y memY (apartM _ (inB x memX) _ (inB y memY) same)
  · rw [composed x (freeVars_subset mem), freeK x mem]
    refine freeM x ?_
    rw [freeVars_rename apartK]
    exact mem_map.mpr ⟨x, mem, freeK x mem⟩
  · exact (renameTypeVars_comp c fun x mem => (composed x mem).symm).symm

theorem AlphaEquivalent.symm {a b : Ty} (ab : AlphaEquivalent a b) : AlphaEquivalent b a := by
  obtain ⟨m, apart, free, rfl⟩ := ab
  have back : ∀ x ∈ typeVars b, renameVar ((typeVars b).map fun id => (renameVar m id, id))
      (renameVar m x) = x :=
    fun x mem => @renameVar_listed _ id _ apart x mem
  refine ⟨(typeVars b).map fun id => (renameVar m id, id), fun x memX y memY same => ?_,
    fun x mem => ?_, ?_⟩
  · rw [typeVars_rename] at memX memY
    obtain ⟨u, memU, rfl⟩ := mem_map.mp memX
    obtain ⟨v, memV, rfl⟩ := mem_map.mp memY
    rw [back u memU, back v memV] at same
    rw [same]
  · rw [freeVars_rename apart] at mem
    obtain ⟨u, memU, rfl⟩ := mem_map.mp mem
    rw [back u (freeVars_subset memU), free u memU]
  · rw [renameTypeVars_comp b fun x mem => (back x mem).trans (renameVar_nil x).symm]
    exact renameTypeVars_nil b

/-! ## What the comparison decides -/

section comparison

variable {ps qs : List TypeVarId} {a b : Ty}

theorem alphaEquivalent_binders (same : AlphaEquivalent (.existential ps a) (.existential qs b)) :
    ps.length = qs.length := by
  obtain ⟨m, _, _, renamed⟩ := same
  simp only [renameTypeVars, Ty.existential.injEq] at renamed
  rw [← renamed.1, length_map]

theorem compared_iff : existentialTypesAreAlphaEquivalent (.existential ps a) (.existential qs b) = true ↔
    ps.length = qs.length ∧ renameTypeVars (binderMap ps qs) b = a := by
  simp [existentialTypesAreAlphaEquivalent]

/-- A variable that is no right binder stays. -/
theorem binderMap_other (lengths : ps.length = qs.length) {x : TypeVarId} (other : x ∉ qs) :
    renameVar (binderMap ps qs) x = x := by
  have none : (qs.reverse.zip ps.reverse).lookup x = none :=
    (lookup_zip_eq_none_iff (by simp [lengths]) x).mpr fun mem => other (mem_reverse.mp mem)
  rw [binderMap, renameVar_zip lengths.symm, none, Option.getD_none]

/-- Binders that are renamed by one mapping. -/
theorem zip_of_renamed {m : List (TypeVarId × TypeVarId)} (renamed : qs.map (renameVar m) = ps) :
    qs.zip ps = qs.map fun q => (q, renameVar m q) := by
  rw [← renamed, zip_eq_zipWith, zipWith_map_right, zipWith_self]

theorem separate_of_alphaEquivalent
    (compared : existentialTypesAreAlphaEquivalent (.existential ps a) (.existential qs b) = true)
    (same : AlphaEquivalent (.existential ps a) (.existential qs b)) : Separate ps qs b := by
  obtain ⟨lengths, replaced⟩ := compared_iff.mp compared
  obtain ⟨m, apart, _, renamed⟩ := same
  simp only [renameTypeVars, Ty.existential.injEq] at renamed
  obtain ⟨binders, bodies⟩ := renamed
  refine ⟨fun x memX y memY => ?_, fun x mem other inside => ?_⟩
  · rw [zip_of_renamed binders] at memX memY
    obtain ⟨q, memQ, rfl⟩ := mem_map.mp memX
    obtain ⟨r, memR, rfl⟩ := mem_map.mp memY
    exact ⟨fun sameKey => congrArg (renameVar m) sameKey,
      apart q (mem_append_left _ memQ) r (mem_append_left _ memR)⟩
  · rw [← binders] at inside
    obtain ⟨q, memQ, isX⟩ := mem_map.mp inside
    have stays : renameVar m x = x :=
      (renameTypeVars_eq_iff.mp (bodies.trans replaced.symm) x mem).trans (binderMap_other lengths other)
    have isQ := apart q (mem_append_left _ memQ) x (mem_append_right _ mem) (isX.trans stays.symm)
    exact other (isQ ▸ memQ)

theorem alphaEquivalent_of_separate
    (compared : existentialTypesAreAlphaEquivalent (.existential ps a) (.existential qs b) = true)
    (separate : Separate ps qs b) : AlphaEquivalent (.existential ps a) (.existential qs b) := by
  obtain ⟨lengths, replaced⟩ := compared_iff.mp compared
  obtain ⟨repeats, elsewhere⟩ := separate
  have bound : ∀ pair ∈ qs.zip ps, renameVar (binderMap ps qs) pair.1 = pair.2 := fun pair mem =>
    renameVar_of_mem (fun x memX y memY => (repeats x memX y memY).mp) mem
  have paired : ∀ q ∈ qs, ∃ p ∈ ps, (q, p) ∈ qs.zip ps := by
    intro q mem
    have keys : (qs.zip ps).map Prod.fst = qs := map_fst_zip (Nat.le_of_eq lengths.symm)
    rw [← keys] at mem
    obtain ⟨⟨_, p⟩, memPair, rfl⟩ := mem_map.mp mem
    exact ⟨p, (of_mem_zip memPair).2, memPair⟩
  -- A right binder and another variable keep different names, as the left binders are not there.
  have mixed : ∀ q ∈ qs, ∀ x ∈ qs ++ typeVars b, x ∉ qs →
      renameVar (binderMap ps qs) q ≠ renameVar (binderMap ps qs) x := by
    intro q memQ x memX other same
    obtain ⟨p, memP, pair⟩ := paired q memQ
    rw [bound _ pair, binderMap_other lengths other] at same
    exact elsewhere x ((mem_append.mp memX).resolve_left other) other (same ▸ memP)
  refine ⟨binderMap ps qs, fun x memX y memY same => ?_, fun x free => ?_, ?_⟩
  · by_cases inX : x ∈ qs
    · by_cases inY : y ∈ qs
      · obtain ⟨p, _, pair⟩ := paired x inX
        obtain ⟨r, _, pair'⟩ := paired y inY
        rw [bound _ pair, bound _ pair'] at same
        exact (repeats _ pair _ pair').mpr same
      · exact absurd same (mixed x inX y memY inY)
    · by_cases inY : y ∈ qs
      · exact absurd same.symm (mixed y inY x memX inX)
      · rwa [binderMap_other lengths inX, binderMap_other lengths inY] at same
  · refine binderMap_other lengths ?_
    simpa using (mem_filter.mp free).2
  · have keys : (qs.zip ps).map Prod.fst = qs := map_fst_zip (Nat.le_of_eq lengths.symm)
    have values : (qs.zip ps).map Prod.snd = ps := map_snd_zip (Nat.le_of_eq lengths)
    have binders : qs.map (renameVar (binderMap ps qs)) = ps :=
      calc qs.map (renameVar (binderMap ps qs))
          = ((qs.zip ps).map Prod.fst).map (renameVar (binderMap ps qs)) := by rw [keys]
        _ = (qs.zip ps).map Prod.snd := by
            rw [map_map]
            exact map_congr_left bound
        _ = ps := values
    rw [renameTypeVars, binders, replaced]

theorem compared_of_sameInside (same : AlphaEquivalent (.existential ps a) (.existential qs b))
    (inside : SameInside ps qs a b) :
    existentialTypesAreAlphaEquivalent (.existential ps a) (.existential qs b) = true := by
  have lengths := alphaEquivalent_binders same
  obtain ⟨m, _, free, renamed⟩ := same
  simp only [renameTypeVars, Ty.existential.injEq] at renamed
  obtain ⟨outer, bodies⟩ := renamed
  refine compared_iff.mpr ⟨lengths, (renameTypeVars_eq_iff.mpr fun x mem => ?_).trans bodies⟩
  rcases mem_typeVars mem with isFree | isBound
  · by_cases here : x ∈ qs
    · have consistent : ∀ u ∈ qs.zip ps, ∀ v ∈ qs.zip ps, u.1 = v.1 → u.2 = v.2 := by
        rw [zip_of_renamed outer]
        intro u memU v memV sameKey
        obtain ⟨q, _, rfl⟩ := mem_map.mp memU
        obtain ⟨r, _, rfl⟩ := mem_map.mp memV
        exact congrArg (renameVar m) sameKey
      have pair : (x, renameVar m x) ∈ qs.zip ps := by
        rw [zip_of_renamed outer]
        exact mem_map.mpr ⟨x, here, rfl⟩
      exact renameVar_of_mem consistent pair
    · rw [binderMap_other lengths here]
      exact (free x (mem_filter.mpr ⟨isFree, by simpa using here⟩)).symm
  · rw [SameInside, ← bodies, binders_rename] at inside
    exact (map_inj_left.mp inside x isBound).symm

theorem sameInside_of_compared
    (compared : existentialTypesAreAlphaEquivalent (.existential ps a) (.existential qs b) = true) :
    SameInside ps qs a b := by
  rw [SameInside, ← (compared_iff.mp compared).2, binders_rename]

end comparison

end Terlan.Typeck
