/-
  Unfolding of type aliases, transparent ones in types and opaque ones inside their module.

  Parts        : what is directly inside a type, and its traversal.
  Substitution : the parameters of an alias replaced by arguments. A parameter that is applied
                 like a constructor takes the arguments of its replacement, which are replaced
                 once more; this can go on for ever, so the function is given fuel.
  Expansion    : the traversal of both sorts of aliases, with the aliases being unfolded.
  Unfolding    : what it should return, and when it does.
-/
import Mathlib.Data.List.TakeWhile
import Terlan.Typeck.Types

namespace Terlan.Typeck

open List Function

/-! ## Parts -/

/-- Everything directly inside a type. -/
def Ty.parts : Ty → List Ty
  | .apply _ args => args
  | .existential _ body => [body]
  | .list elem => [elem]
  | .tuple items => items
  | .union items => items
  | .map fields => fields.map MapFieldType.value
  | .array _ elem => [elem]
  | .named _ _ args => args
  | .function params ret => params ++ [ret]
  | _ => []

/-- The same type around other parts. -/
def Ty.withParts : Ty → List Ty → Ty
  | .apply constructor _, parts => .apply constructor parts
  | .existential params body, parts => .existential params (parts.headD body)
  | .list elem, parts => .list (parts.headD elem)
  | .tuple _, parts => .tuple parts
  | .union _, parts => .union parts
  | .map fields, parts =>
    .map (List.zipWith (fun field value => { field with value := value }) fields parts)
  | .array size elem, parts => .array size (parts.headD elem)
  | .named module name _, parts => .named module name parts
  | .function _ ret, parts => .function parts.dropLast (parts.getLastD ret)
  | ty, _ => ty

/-- The type with a function applied to all its parts. -/
def Ty.mapParts (f : Ty → Ty) (ty : Ty) : Ty := ty.withParts (ty.parts.map f)

theorem sizeOf_part {ty part : Ty} (h : part ∈ ty.parts) : sizeOf part < sizeOf ty := by
  cases ty with
  | apply _ args | tuple args | union args | named _ _ args =>
    have inside : part ∈ args := h
    have := sizeOf_lt_of_mem inside
    simp only [Ty.apply.sizeOf_spec, Ty.tuple.sizeOf_spec, Ty.union.sizeOf_spec,
      Ty.named.sizeOf_spec]
    omega
  | existential _ body | list body | array _ body =>
    obtain rfl := mem_singleton.mp h
    simp only [Ty.existential.sizeOf_spec, Ty.list.sizeOf_spec, Ty.array.sizeOf_spec]
    omega
  | map fields =>
    obtain ⟨field, mem, rfl⟩ := mem_map.mp h
    have := sizeOf_lt_of_mem mem
    obtain ⟨key, value, required⟩ := field
    simp only [MapFieldType.mk.sizeOf_spec] at this
    simp only [Ty.map.sizeOf_spec]
    omega
  | function params ret =>
    rw [Ty.function.sizeOf_spec]
    rcases mem_append.mp h with mem | mem
    · have := sizeOf_lt_of_mem mem
      omega
    · obtain rfl := mem_singleton.mp mem
      omega
  | _ => cases h

theorem mapParts_congr {f g : Ty → Ty} {ty : Ty} (same : ∀ part ∈ ty.parts, f part = g part) :
    ty.mapParts f = ty.mapParts g := by
  rw [Ty.mapParts, Ty.mapParts, map_congr_left same]

theorem parts_mapParts (f : Ty → Ty) (ty : Ty) : (ty.mapParts f).parts = ty.parts.map f := by
  cases ty <;> simp [Ty.mapParts, Ty.withParts, Ty.parts, zipWith_map_right]

theorem named_of_mapParts {f : Ty → Ty} {ty : Ty} {module : Option String} {name : String}
    {args : List Ty} (h : ty.mapParts f = .named module name args) :
    ∃ given, ty = .named module name given ∧ args = given.map f := by
  cases ty with
  | named module name given =>
    cases h
    exact ⟨given, rfl, rfl⟩
  | _ => cases h

/-- A partial function on all types of a list. -/
def collect : (types : List Ty) → ((ty : Ty) → ty ∈ types → Option Ty) → Option (List Ty)
  | [], _ => some []
  | ty :: types, f => do
    let result ← f ty mem_cons_self
    let results ← collect types fun other mem => f other (mem_cons_of_mem _ mem)
    return result :: results

/-- A partial function on all parts of a type. -/
def Ty.rebuild (ty : Ty) (f : (part : Ty) → part ∈ ty.parts → Option Ty) : Option Ty :=
  (collect ty.parts f).map ty.withParts

theorem collect_eq_some {types results : List Ty} {f : (ty : Ty) → ty ∈ types → Option Ty} :
    collect types f = some results ↔
      ∃ g : Ty → Ty, (∀ ty mem, f ty mem = some (g ty)) ∧ results = types.map g := by
  induction types generalizing results with
  | nil =>
    constructor
    · intro h
      exact ⟨id, fun ty mem => absurd mem (not_mem_nil), by simpa [collect, eq_comm] using h⟩
    · rintro ⟨g, _, rfl⟩
      simp [collect]
  | cons ty types ih =>
    constructor
    · intro h
      simp only [collect, Option.bind_eq_bind, Option.bind_eq_some_iff, ih] at h
      obtain ⟨result, head, results, ⟨g, tail, rfl⟩, back⟩ := h
      cases back
      refine ⟨Function.update g ty result, fun other mem => ?_, ?_⟩
      · by_cases same : other = ty
        · subst same
          rw [update_self, head]
        · rw [update_of_ne same]
          exact tail other ((mem_cons.mp mem).resolve_left same)
      · rw [map_cons, update_self]
        refine congrArg _ (map_congr_left fun other mem => ?_)
        by_cases same : other = ty
        · subst same
          have := (tail other mem).symm.trans head
          rw [update_self, Option.some.inj this]
        · rw [update_of_ne same]
    · rintro ⟨g, each, rfl⟩
      have tail : collect types (fun other mem => f other (mem_cons_of_mem _ mem)) =
          some (types.map g) := ih.mpr ⟨g, fun other mem => each other _, rfl⟩
      simp [collect, each ty mem_cons_self, tail]

theorem rebuild_eq_some {ty result : Ty} {f : (part : Ty) → part ∈ ty.parts → Option Ty} :
    ty.rebuild f = some result ↔
      ∃ g : Ty → Ty, (∀ part mem, f part mem = some (g part)) ∧ result = ty.mapParts g := by
  simp only [Ty.rebuild, Option.map_eq_some_iff, collect_eq_some, Ty.mapParts]
  constructor
  · rintro ⟨parts, ⟨g, each, rfl⟩, rfl⟩
    exact ⟨g, each, rfl⟩
  · rintro ⟨g, each, rfl⟩
    exact ⟨_, ⟨g, each, rfl⟩, rfl⟩

/-! ## Substitution -/

/-- `ArraySize::substitute`. -/
def ArraySize.substitute (mapping : List (TypeVarId × Ty)) : ArraySize → ArraySize
  | .known size => .known size
  | .param id =>
    match mapping.lookup id with
    | some (.literalInt value) => if 0 ≤ value then .known value.toInt.toNat else .param id
    | some (.var next) => .param next
    | _ => .param id

def mappingWithoutBoundParams (mapping : List (TypeVarId × Ty)) (bound : List TypeVarId) :
    List (TypeVarId × Ty) :=
  mapping.filter fun entry => entry.1 ∉ bound

/-- Replaces variables; `fuel` bounds how often the arguments of a replacement are replaced in
their turn. -/
def substituteTypeVars (fuel : Nat) (mapping : List (TypeVarId × Ty)) (ty : Ty) : Option Ty :=
  match ty with
  | .var id => some ((mapping.lookup id).getD (.var id))
  | .apply constructor args => do
    let args ← collect args fun arg _ => substituteTypeVars fuel mapping arg
    match mapping.lookup constructor with
    | some (.named module name constructorArgs) =>
      match fuel with
      | 0 => none
      | fuel + 1 => do
        let applied ← collect constructorArgs fun arg _ => substituteTypeVars fuel mapping arg
        return .named module name (applied ++ args)
    | some (.var next) => return .apply next args
    | _ => return .apply constructor args
  | .existential params body => do
    let body ← substituteTypeVars fuel (mappingWithoutBoundParams mapping params) body
    return .existential params body
  | .array size elem => do
    let elem ← substituteTypeVars fuel mapping elem
    return .array (size.substitute mapping) elem
  | ty => ty.rebuild fun part _ => substituteTypeVars fuel mapping part
termination_by (fuel, sizeOf ty)
decreasing_by
  · exact .right _ (sizeOf_part (show _ ∈ (Ty.apply constructor args).parts from ‹_›))
  · exact .left _ _ (Nat.lt_succ_self _)
  · exact .right _ (sizeOf_part (show body ∈ (Ty.existential params body).parts from mem_cons_self))
  · exact .right _ (sizeOf_part (show elem ∈ (Ty.array size elem).parts from mem_cons_self))
  · exact .right _ (sizeOf_part ‹_›)

theorem collect_mono {types results : List Ty} {f g : (ty : Ty) → ty ∈ types → Option Ty}
    (h : collect types f = some results)
    (more : ∀ ty mem result, f ty mem = some result → g ty mem = some result) :
    collect types g = some results := by
  obtain ⟨found, each, rfl⟩ := collect_eq_some.mp h
  exact collect_eq_some.mpr ⟨found, fun ty mem => more ty mem _ (each ty mem), rfl⟩

theorem rebuild_mono {ty result : Ty} {f g : (part : Ty) → part ∈ ty.parts → Option Ty}
    (h : ty.rebuild f = some result)
    (more : ∀ part mem result, f part mem = some result → g part mem = some result) :
    ty.rebuild g = some result := by
  obtain ⟨found, each, rfl⟩ := rebuild_eq_some.mp h
  exact rebuild_eq_some.mpr ⟨found, fun part mem => more part mem _ (each part mem), rfl⟩

/-- More fuel gives the same type. -/
theorem substituteTypeVars_mono {fuel more : Nat} {mapping : List (TypeVarId × Ty)} {ty result : Ty}
    (h : substituteTypeVars fuel mapping ty = some result) (le : fuel ≤ more) :
    substituteTypeVars more mapping ty = some result := by
  unfold substituteTypeVars at h ⊢
  split at h
  · exact h
  · next constructor args =>
    simp only [Option.bind_eq_bind, Option.bind_eq_some_iff] at h ⊢
    obtain ⟨results, hargs, h⟩ := h
    refine ⟨results, collect_mono hargs fun arg mem _ found => ?_, ?_⟩
    · have : sizeOf arg < sizeOf (Ty.apply constructor args) := sizeOf_part mem
      exact substituteTypeVars_mono found le
    · split at h
      · next module name constructorArgs found =>
        cases fuel with
        | zero => cases h
        | succ fuel =>
          obtain ⟨more, rfl⟩ : ∃ pred, more = pred + 1 := ⟨more - 1, by omega⟩
          simp only [Option.bind_eq_some_iff] at h ⊢
          obtain ⟨applied, happlied, h⟩ := h
          exact ⟨applied, collect_mono happlied fun arg mem _ found =>
            substituteTypeVars_mono found (Nat.le_of_succ_le_succ le), h⟩
      · exact h
      · exact h
  · next params body =>
    simp only [Option.bind_eq_bind, Option.bind_eq_some_iff] at h ⊢
    obtain ⟨result, hbody, h⟩ := h
    have : sizeOf body < sizeOf (Ty.existential params body) := sizeOf_part mem_cons_self
    exact ⟨result, substituteTypeVars_mono hbody le, h⟩
  · next size elem =>
    simp only [Option.bind_eq_bind, Option.bind_eq_some_iff] at h ⊢
    obtain ⟨result, helem, h⟩ := h
    have : sizeOf elem < sizeOf (Ty.array size elem) := sizeOf_part mem_cons_self
    exact ⟨result, substituteTypeVars_mono helem le, h⟩
  · refine rebuild_mono h fun part mem _ found => ?_
    have := sizeOf_part mem
    exact substituteTypeVars_mono found le
termination_by (fuel, sizeOf ty)

/-- Replacing the variables ends with the result. -/
def Substitutes (mapping : List (TypeVarId × Ty)) (ty result : Ty) : Prop :=
  ∃ fuel, substituteTypeVars fuel mapping ty = some result

theorem Substitutes.unique {mapping : List (TypeVarId × Ty)} {ty a b : Ty}
    (ha : Substitutes mapping ty a) (hb : Substitutes mapping ty b) : a = b := by
  obtain ⟨m, hm⟩ := ha
  obtain ⟨n, hn⟩ := hb
  have left := substituteTypeVars_mono hm (Nat.le_max_left m n)
  have right := substituteTypeVars_mono hn (Nat.le_max_right m n)
  exact Option.some.inj (left.symm.trans right)

/-! ## Expansion -/

/-- What an expansion does with a name applied to arguments. -/
inductive Reference where
  /-- The name stays, in this spelling, and the arguments are expanded. -/
  | keep (module : Option String) (name : String)
  /-- The application stays as it is. -/
  | stay
  /-- The alias is unfolded. -/
  | unfold (key : String) (params : List TypeVarId) (body : Ty)

/-- A way to unfold aliases: what names refer to, and whether an alias that is entered again is
returned with the arguments it was given. -/
structure Unfolding where
  keys : List String
  refer : Option String → String → Nat → Reference
  clones : Bool
  known : ∀ {module name arity key params body},
    refer module name arity = .unfold key params body → key ∈ keys
  spelling : ∀ {module name arity module' name'},
    refer module name arity = .keep module' name' → refer module' name' arity = .keep module' name'

/-- The aliases that are not being unfolded. -/
def Unfolding.inactive (u : Unfolding) (active : List String) : Nat :=
  (u.keys.filter fun key => key ∉ active).length

theorem inactive_cons {u : Unfolding} {active : List String} {key : String} (known : key ∈ u.keys)
    (fresh : key ∉ active) : u.inactive (key :: active) < u.inactive active := by
  have split : u.keys.filter (fun other => other ∉ key :: active) =
      (u.keys.filter fun other => other ∉ active).filter fun other => other ≠ key := by
    rw [filter_filter]
    exact filter_congr fun other _ => by simp
  rw [Unfolding.inactive, Unfolding.inactive, split, length_filter_lt_length_iff_exists]
  exact ⟨key, by simp [known, fresh], by simp⟩

/-- The traversal of both expansions. -/
def Unfolding.expand (u : Unfolding) (fuel : Nat) (active : List String) (ty : Ty) : Option Ty :=
  match ty with
  | .named module name args =>
    match _reference : u.refer module name args.length with
    | .keep module' name' => do
      let args ← collect args fun arg _ => u.expand fuel active arg
      return .named module' name' args
    | .stay => return .named module name args
    | .unfold key params body => do
      let expanded ← collect args fun arg _ => u.expand fuel active arg
      if _entered : key ∈ active then
        return .named module name (if u.clones then args else expanded)
      else
        let opened ← substituteTypeVars fuel (params.zip expanded).reverse body
        u.expand fuel (key :: active) opened
  | ty => ty.rebuild fun part _ => u.expand fuel active part
termination_by (u.inactive active, sizeOf ty)
decreasing_by
  · exact .right _ (sizeOf_part (show _ ∈ (Ty.named module name args).parts from ‹_›))
  · exact .right _ (sizeOf_part (show _ ∈ (Ty.named module name args).parts from ‹_›))
  · exact .left _ _ (inactive_cons (u.known _reference) _entered)
  · exact .right _ (sizeOf_part ‹_›)

section Equations

variable {u : Unfolding} {fuel : Nat} {active : List String} {module : Option String} {name : String}
variable {args : List Ty}

theorem expand_inside {ty : Ty} (notNamed : ∀ module name args, ty ≠ .named module name args) :
    u.expand fuel active ty = ty.rebuild fun part _ => u.expand fuel active part := by
  rw [Unfolding.expand.eq_def]
  split
  · exact (notNamed _ _ _ rfl).elim
  · rfl

theorem expand_keep {module' : Option String} {name' : String}
    (reference : u.refer module name args.length = .keep module' name') :
    u.expand fuel active (.named module name args) =
      (collect args fun arg _ => u.expand fuel active arg).map (.named module' name') := by
  rw [Unfolding.expand.eq_def]
  dsimp only
  split
  · next found =>
    cases reference.symm.trans found
    cases collect args fun arg _ => u.expand fuel active arg <;> rfl
  · next found => cases reference.symm.trans found
  · next found => cases reference.symm.trans found

theorem expand_stay (reference : u.refer module name args.length = .stay) :
    u.expand fuel active (.named module name args) = some (.named module name args) := by
  rw [Unfolding.expand.eq_def]
  dsimp only
  split
  · next found => cases reference.symm.trans found
  · rfl
  · next found => cases reference.symm.trans found

theorem expand_reenter {key : String} {params : List TypeVarId} {body : Ty}
    (reference : u.refer module name args.length = .unfold key params body) (entered : key ∈ active) :
    u.expand fuel active (.named module name args) =
      (collect args fun arg _ => u.expand fuel active arg).map fun expanded =>
        .named module name (if u.clones then args else expanded) := by
  rw [Unfolding.expand.eq_def]
  dsimp only
  split
  · next found => cases reference.symm.trans found
  · next found => cases reference.symm.trans found
  next found =>
  cases reference.symm.trans found
  simp only [dif_pos entered]
  cases collect args fun arg _ => u.expand fuel active arg <;> rfl

theorem expand_unfold {key : String} {params : List TypeVarId} {body : Ty}
    (reference : u.refer module name args.length = .unfold key params body) (fresh : key ∉ active) :
    u.expand fuel active (.named module name args) =
      (collect args fun arg _ => u.expand fuel active arg).bind fun expanded =>
        (substituteTypeVars fuel (params.zip expanded).reverse body).bind
          (u.expand fuel (key :: active)) := by
  rw [Unfolding.expand.eq_def]
  dsimp only
  split
  · next found => cases reference.symm.trans found
  · next found => cases reference.symm.trans found
  next found =>
  cases reference.symm.trans found
  simp only [dif_neg fresh]
  rfl

end Equations

theorem expand_mono {u : Unfolding} {fuel more : Nat} {active : List String} {ty result : Ty}
    (h : u.expand fuel active ty = some result) (le : fuel ≤ more) :
    u.expand more active ty = some result := by
  by_cases named : ∃ module name args, ty = .named module name args
  · obtain ⟨module, name, args, rfl⟩ := named
    have each : ∀ arg (_ : arg ∈ args) result, u.expand fuel active arg = some result →
        u.expand more active arg = some result := by
      intro arg mem result found
      have : sizeOf arg < sizeOf (Ty.named module name args) := sizeOf_part mem
      exact expand_mono found le
    cases reference : u.refer module name args.length with
    | keep =>
      rw [expand_keep reference, Option.map_eq_some_iff] at h ⊢
      obtain ⟨results, found, h⟩ := h
      exact ⟨results, collect_mono found each, h⟩
    | stay =>
      rw [expand_stay reference] at h ⊢
      exact h
    | unfold key params body =>
      by_cases entered : key ∈ active
      · rw [expand_reenter reference entered, Option.map_eq_some_iff] at h ⊢
        obtain ⟨results, found, h⟩ := h
        exact ⟨results, collect_mono found each, h⟩
      rw [expand_unfold reference entered, Option.bind_eq_some_iff] at h ⊢
      obtain ⟨results, found, h⟩ := h
      obtain ⟨opened, substituted, h⟩ := Option.bind_eq_some_iff.mp h
      have := inactive_cons (u.known reference) entered
      exact ⟨results, collect_mono found each, Option.bind_eq_some_iff.mpr
        ⟨opened, substituteTypeVars_mono substituted le, expand_mono h le⟩⟩
  · have notNamed : ∀ module name args, ty ≠ .named module name args :=
      fun module name args same => named ⟨module, name, args, same⟩
    rw [expand_inside notNamed] at h ⊢
    refine rebuild_mono h fun part mem _ found => ?_
    have := sizeOf_part mem
    exact expand_mono found le
termination_by (u.inactive active, sizeOf ty)

/-! ## Unfolding -/

/-- The type unfolds to the result while the aliases of `path` are being unfolded. An alias is
unfolded with its arguments unfolded; it stays only where it is being unfolded already. -/
inductive Unfolded (u : Unfolding) : List String → Ty → Ty → Prop where
  | inside {path : List String} {ty : Ty} {f : Ty → Ty}
      (notNamed : ∀ module name args, ty ≠ .named module name args)
      (each : ∀ part ∈ ty.parts, Unfolded u path part (f part)) :
      Unfolded u path ty (ty.mapParts f)
  | keep {path : List String} {module module' : Option String} {name name' : String}
      {args : List Ty} {f : Ty → Ty}
      (reference : u.refer module name args.length = .keep module' name')
      (each : ∀ arg ∈ args, Unfolded u path arg (f arg)) :
      Unfolded u path (.named module name args) (.named module' name' (args.map f))
  | stay {path : List String} {module : Option String} {name : String} {args : List Ty}
      {f : Ty → Ty} (reference : u.refer module name args.length = .stay)
      (each : ∀ arg ∈ args, Unfolded u path arg (f arg)) :
      Unfolded u path (.named module name args) (.named module name (args.map f))
  | reenter {path : List String} {module : Option String} {name key : String} {args : List Ty}
      {params : List TypeVarId} {body : Ty} {f : Ty → Ty}
      (reference : u.refer module name args.length = .unfold key params body)
      (entered : key ∈ path) (each : ∀ arg ∈ args, Unfolded u path arg (f arg)) :
      Unfolded u path (.named module name args) (.named module name (args.map f))
  | unfold {path : List String} {module : Option String} {name key : String} {args : List Ty}
      {params : List TypeVarId} {body opened result : Ty} {f : Ty → Ty}
      (reference : u.refer module name args.length = .unfold key params body)
      (fresh : key ∉ path) (each : ∀ arg ∈ args, Unfolded u path arg (f arg))
      (substituted : Substitutes (params.zip (args.map f)).reverse body opened)
      (rest : Unfolded u (key :: path) opened result) :
      Unfolded u path (.named module name args) result

theorem Unfolded.unique {u : Unfolding} {path : List String} {ty a b : Ty}
    (ha : Unfolded u path ty a) (hb : Unfolded u path ty b) : a = b := by
  induction ha generalizing b with
  | inside notNamed _ ih =>
    cases hb with
    | inside _ each => exact mapParts_congr fun part mem => ih part mem (each part mem)
    | keep | stay | reenter | unfold => exact (notNamed _ _ _ rfl).elim
  | keep reference _ ih =>
    cases hb with
    | inside notNamed => exact (notNamed _ _ _ rfl).elim
    | keep found each =>
      cases reference.symm.trans found
      rw [map_congr_left fun arg mem => ih arg mem (each arg mem)]
    | stay found | reenter found | unfold found => cases reference.symm.trans found
  | stay reference _ ih =>
    cases hb with
    | inside notNamed => exact (notNamed _ _ _ rfl).elim
    | stay found each => rw [map_congr_left fun arg mem => ih arg mem (each arg mem)]
    | keep found | reenter found | unfold found => cases reference.symm.trans found
  | reenter reference entered _ ih =>
    cases hb with
    | inside notNamed => exact (notNamed _ _ _ rfl).elim
    | reenter found _ each => rw [map_congr_left fun arg mem => ih arg mem (each arg mem)]
    | unfold found fresh =>
      cases reference.symm.trans found
      exact absurd entered fresh
    | keep found | stay found => cases reference.symm.trans found
  | unfold reference fresh _ substituted _ ih ihRest =>
    cases hb with
    | inside notNamed => exact (notNamed _ _ _ rfl).elim
    | reenter found entered =>
      cases reference.symm.trans found
      exact absurd entered fresh
    | unfold found _ each substituted' rest =>
      cases reference.symm.trans found
      have same := map_congr_left fun arg mem => ih arg mem (each arg mem)
      rw [← same] at substituted'
      cases substituted.unique substituted'
      exact ihRest rest
    | keep found | stay found => cases reference.symm.trans found

/-- What unfolding a type looks at, with the aliases that are being unfolded there. -/
inductive Visits (u : Unfolding) (path : List String) (ty : Ty) : List String → Ty → Prop where
  | here : Visits u path ty path ty
  | part {active : List String} {outer part : Ty} (outside : Visits u path ty active outer)
      (mem : part ∈ outer.parts) : Visits u path ty active part
  | body {active : List String} {module : Option String} {name key : String} {args : List Ty}
      {params : List TypeVarId} {body opened : Ty} {f : Ty → Ty}
      (outside : Visits u path ty active (.named module name args))
      (reference : u.refer module name args.length = .unfold key params body)
      (fresh : key ∉ active) (each : ∀ arg ∈ args, Unfolded u active arg (f arg))
      (substituted : Substitutes (params.zip (args.map f)).reverse body opened) :
      Visits u path ty (key :: active) opened

theorem Visits.trans {u : Unfolding} {path active later : List String} {ty outer inner : Ty}
    (first : Visits u path ty active outer) (second : Visits u active outer later inner) :
    Visits u path ty later inner := by
  induction second with
  | here => exact first
  | part _ mem ih => exact .part ih mem
  | body _ reference fresh each substituted ih => exact .body ih reference fresh each substituted

/-- Expansion ends, with what the type unfolds to. -/
def Expands (u : Unfolding) (path : List String) (ty : Ty) : Prop :=
  ∃ fuel result, u.expand fuel path ty = some result ∧ Unfolded u path ty result

/-- An application that is returned as it was given. -/
def Unfolding.Returns (u : Unfolding) (path : List String) (module : Option String) (name : String)
    (arity : Nat) : Prop :=
  u.refer module name arity = .stay ∨ u.clones = true ∧
    ∃ key params body, u.refer module name arity = .unfold key params body ∧ key ∈ path

/-- Where an application is returned as it was given, nothing in its arguments unfolds, and where
an alias is unfolded, replacing its parameters ends. -/
structure Settles (u : Unfolding) (path : List String) (ty : Ty) : Prop where
  returned : ∀ {module name args}, ty = .named module name args →
    u.Returns path module name args.length → ∀ arg ∈ args, Unfolded u path arg arg
  opens : ∀ {module name args key params body f}, ty = .named module name args →
    u.refer module name args.length = .unfold key params body → key ∉ path →
    (∀ arg ∈ args, Unfolded u path arg (f arg)) →
    ∃ opened, Substitutes (params.zip (args.map f)).reverse body opened

/-- One amount of fuel is enough for all types of a list. -/
theorem exists_fuel {u : Unfolding} {path : List String} {types : List Ty}
    (each : ∀ ty ∈ types, Expands u path ty) : ∃ (fuel : Nat) (f : Ty → Ty), ∀ ty ∈ types,
      u.expand fuel path ty = some (f ty) ∧ Unfolded u path ty (f ty) := by
  have common : ∃ fuel, ∀ ty ∈ types, ∃ result,
      u.expand fuel path ty = some result ∧ Unfolded u path ty result := by
    induction types with
    | nil => exact ⟨0, by simp⟩
    | cons head types ih =>
      obtain ⟨m, result, found, unfolded⟩ := each head mem_cons_self
      obtain ⟨n, tail⟩ := ih fun ty mem => each ty (mem_cons_of_mem _ mem)
      refine ⟨max m n, fun ty mem => ?_⟩
      rcases mem_cons.mp mem with rfl | mem
      · exact ⟨result, expand_mono found (Nat.le_max_left m n), unfolded⟩
      · obtain ⟨result, found, unfolded⟩ := tail ty mem
        exact ⟨result, expand_mono found (Nat.le_max_right m n), unfolded⟩
  obtain ⟨fuel, each⟩ := common
  refine ⟨fuel, fun ty => (u.expand fuel path ty).getD ty, fun ty mem => ?_⟩
  obtain ⟨result, found, unfolded⟩ := each ty mem
  simp only [found, Option.getD_some]
  exact ⟨trivial, unfolded⟩

/-- Where everything looked at is settled, expansion ends with the unfolded type. -/
theorem expands_of_settled {u : Unfolding} {path : List String} {ty : Ty}
    (settled : ∀ active part, Visits u path ty active part → Settles u active part) :
    Expands u path ty := by
  have parts : ∀ part ∈ ty.parts, Expands u path part := by
    intro part mem
    have := sizeOf_part mem
    exact expands_of_settled fun active inner visits =>
      settled active inner ((Visits.part .here mem).trans visits)
  obtain ⟨fuel, f, each⟩ := exists_fuel parts
  by_cases named : ∃ module name args, ty = .named module name args
  · obtain ⟨module, name, args, rfl⟩ := named
    have collected : collect args (fun arg _ => u.expand fuel path arg) = some (args.map f) :=
      collect_eq_some.mpr ⟨f, fun arg mem => (each arg mem).1, rfl⟩
    have unfolded : ∀ arg ∈ args, Unfolded u path arg (f arg) := fun arg mem => (each arg mem).2
    have here : Settles u path (.named module name args) := settled _ _ .here
    have same : u.Returns path module name args.length → args.map f = args := fun returns =>
      (map_congr_left fun arg mem =>
        (unfolded arg mem).unique (here.returned rfl returns arg mem)).trans (List.map_id _)
    cases reference : u.refer module name args.length with
    | keep module' name' =>
      refine ⟨fuel, _, ?_, .keep reference unfolded⟩
      rw [expand_keep reference, collected]
      rfl
    | stay =>
      refine ⟨fuel, _, expand_stay reference, ?_⟩
      have stays : Unfolded u path (.named module name args) (.named module name (args.map f)) :=
        .stay reference unfolded
      rwa [same (.inl reference)] at stays
    | unfold key params body =>
      by_cases entered : key ∈ path
      · refine ⟨fuel, _, ?_, .reenter reference entered unfolded⟩
        rw [expand_reenter reference entered, collected, Option.map_some]
        cases clones : u.clones with
        | false => rfl
        | true => rw [same (.inr ⟨clones, key, params, body, reference, entered⟩)]; rfl
      · obtain ⟨opened, substituted⟩ := here.opens rfl reference entered unfolded
        have := inactive_cons (u.known reference) entered
        obtain ⟨m, result, found, rest⟩ : Expands u (key :: path) opened :=
          expands_of_settled fun active inner visits => settled active inner
            ((Visits.body .here reference entered unfolded substituted).trans visits)
        obtain ⟨n, opening⟩ := id substituted
        refine ⟨max fuel (max m n), result, ?_, .unfold reference entered unfolded substituted rest⟩
        rw [expand_unfold reference entered, Option.bind_eq_some_iff]
        refine ⟨_, collect_mono collected fun arg _ _ found =>
          expand_mono found (Nat.le_max_left _ _), Option.bind_eq_some_iff.mpr ⟨opened, ?_, ?_⟩⟩
        · exact substituteTypeVars_mono opening
            (Nat.le_trans (Nat.le_max_right m n) (Nat.le_max_right _ _))
        · exact expand_mono found (Nat.le_trans (Nat.le_max_left m n) (Nat.le_max_right _ _))
  · have notNamed : ∀ module name args, ty ≠ .named module name args :=
      fun module name args same => named ⟨module, name, args, same⟩
    refine ⟨fuel, ty.mapParts f, ?_, .inside notNamed fun part mem => (each part mem).2⟩
    rw [expand_inside notNamed]
    exact rebuild_eq_some.mpr ⟨f, fun part mem => (each part mem).1, rfl⟩
termination_by (u.inactive path, sizeOf ty)

section Inversion

variable {u : Unfolding} {path : List String} {module : Option String} {name : String}
variable {args : List Ty} {result : Ty}

theorem unfolded_stay (h : Unfolded u path (.named module name args) result)
    (reference : u.refer module name args.length = .stay) :
    ∃ f : Ty → Ty, (∀ arg ∈ args, Unfolded u path arg (f arg)) ∧
      result = .named module name (args.map f) := by
  cases h with
  | inside notNamed => exact (notNamed _ _ _ rfl).elim
  | stay _ each => exact ⟨_, each, rfl⟩
  | keep found | reenter found | unfold found => cases reference.symm.trans found

variable {key : String} {params : List TypeVarId} {body : Ty}

theorem unfolded_reenter (h : Unfolded u path (.named module name args) result)
    (reference : u.refer module name args.length = .unfold key params body) (entered : key ∈ path) :
    ∃ f : Ty → Ty, (∀ arg ∈ args, Unfolded u path arg (f arg)) ∧
      result = .named module name (args.map f) := by
  cases h with
  | inside notNamed => exact (notNamed _ _ _ rfl).elim
  | reenter _ _ each => exact ⟨_, each, rfl⟩
  | unfold found fresh =>
    cases reference.symm.trans found
    exact absurd entered fresh
  | keep found | stay found => cases reference.symm.trans found

theorem unfolded_unfold (h : Unfolded u path (.named module name args) result)
    (reference : u.refer module name args.length = .unfold key params body) (fresh : key ∉ path) :
    ∃ (f : Ty → Ty) (opened : Ty), (∀ arg ∈ args, Unfolded u path arg (f arg)) ∧
      Substitutes (params.zip (args.map f)).reverse body opened ∧
      Unfolded u (key :: path) opened result := by
  cases h with
  | inside notNamed => exact (notNamed _ _ _ rfl).elim
  | unfold found _ each substituted rest =>
    cases reference.symm.trans found
    exact ⟨_, _, each, substituted, rest⟩
  | reenter found entered =>
    cases reference.symm.trans found
    exact absurd entered fresh
  | keep found | stay found => cases reference.symm.trans found

theorem unfolded_args_of_same {f : Ty → Ty} (each : ∀ arg ∈ args, Unfolded u path arg (f arg))
    (same : args = args.map f) : ∀ arg ∈ args, Unfolded u path arg arg := by
  intro arg mem
  have fixed : f arg = id arg :=
    map_inj_left.mp (same.symm.trans (List.map_id _).symm) arg mem
  have unfolded := each arg mem
  rwa [fixed] at unfolded

end Inversion

/-- An expansion that ends with the unfolded type has settled it. -/
theorem settled_of_expands {u : Unfolding} {path : List String} {ty : Ty}
    (ends : Expands u path ty) : Settles u path ty := by
  obtain ⟨fuel, result, found, unfolded⟩ := ends
  constructor
  · rintro module name args rfl (reference | ⟨clones, key, params, body, reference, entered⟩)
    · obtain ⟨f, each, back⟩ := unfolded_stay unfolded reference
      cases (expand_stay reference).symm.trans found
      exact unfolded_args_of_same each (Ty.named.inj back).2.2
    · obtain ⟨f, each, back⟩ := unfolded_reenter unfolded reference entered
      rw [expand_reenter reference entered, Option.map_eq_some_iff] at found
      obtain ⟨expanded, -, given⟩ := found
      rw [clones, if_pos rfl, back] at given
      exact unfolded_args_of_same each (Ty.named.inj given).2.2
  · rintro module name args key params body f rfl reference fresh each
    obtain ⟨g, opened, each', substituted, -⟩ := unfolded_unfold unfolded reference fresh
    rw [map_congr_left fun arg mem => (each arg mem).unique (each' arg mem)]
    exact ⟨opened, substituted⟩

/-- Every expansion that unfolding a type looks at ends with the unfolded type exactly where all
of them are settled. -/
theorem expands_iff_settled {u : Unfolding} {path : List String} {ty : Ty} :
    (∀ active part, Visits u path ty active part → Expands u active part) ↔
      ∀ active part, Visits u path ty active part → Settles u active part :=
  ⟨fun ends active part visits => settled_of_expands (ends active part visits),
    fun settled _ _ visits => expands_of_settled fun later inner further =>
      settled later inner (visits.trans further)⟩

/-! ## Single steps -/

/-- Any number of single unfoldings, anywhere in the type. -/
inductive Reaches (u : Unfolding) : Ty → Ty → Prop where
  | refl (ty : Ty) : Reaches u ty ty
  | trans {a b c : Ty} (first : Reaches u a b) (second : Reaches u b c) : Reaches u a c
  | inside {ty : Ty} {f : Ty → Ty} (each : ∀ part ∈ ty.parts, Reaches u part (f part)) :
      Reaches u ty (ty.mapParts f)
  | spell {module module' : Option String} {name name' : String} {args : List Ty}
      (reference : u.refer module name args.length = .keep module' name') :
      Reaches u (.named module name args) (.named module' name' args)
  | unfold {module : Option String} {name key : String} {args : List Ty}
      {params : List TypeVarId} {body opened : Ty}
      (reference : u.refer module name args.length = .unfold key params body)
      (substituted : Substitutes (params.zip args).reverse body opened) :
      Reaches u (.named module name args) opened

/-- No alias is left that could be unfolded. -/
inductive Normal (u : Unfolding) : Ty → Prop where
  | intro {ty : Ty} (outermost : ∀ {module name args key params body}, ty = .named module name args →
        u.refer module name args.length ≠ .unfold key params body)
      (inside : ∀ part ∈ ty.parts, Normal u part) : Normal u ty

theorem reaches_args {u : Unfolding} {module : Option String} {name : String} {args : List Ty}
    {f : Ty → Ty} (each : ∀ arg ∈ args, Reaches u arg (f arg)) :
    Reaches u (.named module name args) (.named module name (args.map f)) :=
  @Reaches.inside u (.named module name args) f each

/-- What a type unfolds to is reached by unfolding single aliases. -/
theorem reaches_of_unfolded {u : Unfolding} {path : List String} {ty result : Ty}
    (h : Unfolded u path ty result) : Reaches u ty result := by
  induction h with
  | inside _ _ ih => exact .inside ih
  | keep reference _ ih => exact (reaches_args ih).trans (.spell (by simpa using reference))
  | stay _ _ ih | reenter _ _ _ ih => exact reaches_args ih
  | unfold reference _ _ substituted _ ih ihRest =>
    exact (reaches_args ih).trans ((Reaches.unfold (by simpa using reference) substituted).trans ihRest)

/-- An application comes back to an alias that is being unfolded. -/
def Reenters (u : Unfolding) (path : List String) (ty : Ty) : Prop :=
  ∃ module name args key params body, ty = .named module name args ∧
    u.refer module name args.length = .unfold key params body ∧ key ∈ path

/-- The induction behind the next results: an invariant of unfolding under which it never comes
back to an alias leaves no alias. In the body of an alias the arguments are normal. -/
theorem normal_of_invariant {u : Unfolding} {Inv : List String → Ty → Prop}
    (parts : ∀ {path ty part}, Inv path ty → part ∈ ty.parts → Inv path part)
    (opens : ∀ {path module name args key params body opened} {f : Ty → Ty},
      Inv path (.named module name args) →
      u.refer module name args.length = .unfold key params body → key ∉ path →
      (∀ arg ∈ args, Unfolded u path arg (f arg)) → (∀ arg ∈ args, Normal u (f arg)) →
      Substitutes (params.zip (args.map f)).reverse body opened → Inv (key :: path) opened)
    (acyclic : ∀ {path ty}, Inv path ty → ¬ Reenters u path ty) {path : List String}
    {ty result : Ty} (h : Unfolded u path ty result) (start : Inv path ty) : Normal u result := by
  have normalArgs : ∀ {args : List Ty} {f : Ty → Ty}, (∀ arg ∈ args, Normal u (f arg)) →
      ∀ part ∈ args.map f, Normal u part := by
    intro args f each part inside
    obtain ⟨arg, mem, rfl⟩ := mem_map.mp inside
    exact each arg mem
  induction h with
  | inside notNamed each ih =>
    refine .intro (fun same => ?_) ?_
    · obtain ⟨_, named, -⟩ := named_of_mapParts same
      exact (notNamed _ _ _ named).elim
    · rw [parts_mapParts]
      exact normalArgs fun part mem => ih part mem (parts start mem)
  | keep reference each ih =>
    refine .intro (fun same found => ?_)
      (normalArgs fun part mem => ih part mem (parts start mem))
    cases same
    rw [length_map, u.spelling reference] at found
    cases found
  | stay reference each ih =>
    refine .intro (fun same found => ?_)
      (normalArgs fun part mem => ih part mem (parts start mem))
    cases same
    rw [length_map, reference] at found
    cases found
  | reenter reference entered =>
    exact (acyclic start ⟨_, _, _, _, _, _, rfl, reference, entered⟩).elim
  | unfold reference fresh each substituted _ ih ihRest =>
    exact ihRest (opens start reference fresh each
      (fun arg mem => ih arg mem (parts start mem)) substituted)

/-- Where unfolding never comes back to an alias, no alias is left. -/
theorem normal_of_unfolded {u : Unfolding} {path : List String} {ty result : Ty}
    (h : Unfolded u path ty result)
    (acyclic : ∀ active part, Visits u path ty active part → ¬ Reenters u active part) :
    Normal u result :=
  @normal_of_invariant u (Visits u path ty) .part
    (fun outside reference fresh each _ substituted =>
      .body outside reference fresh each substituted)
    (acyclic _ _) _ _ _ h .here

/-! ## Alias tables -/

/-- `TypeAlias`, as far as expansion reads it. -/
structure TypeAlias where
  params : List TypeVarId
  body : Ty
  isOpaque : Bool

/-- `rsplit_once('.')`, for a text with a dot in it. -/
def rsplitOnceDot (text : String) : String × String :=
  let backwards := text.toList.reverse
  (String.ofList ((backwards.dropWhile (· != '.')).drop 1).reverse,
    String.ofList (backwards.takeWhile (· != '.')).reverse)

theorem rsplitOnceDot_join {text : String} (dot : '.' ∈ text.toList) :
    (rsplitOnceDot text).1 ++ "." ++ (rsplitOnceDot text).2 = text := by
  have found : ∃ rest, text.toList.reverse.dropWhile (· != '.') = '.' :: rest := by
    cases left : text.toList.reverse.dropWhile (· != '.') with
    | nil =>
      have all := dropWhile_eq_nil_iff.mp left '.' (mem_reverse.mpr dot)
      simp at all
    | cons c rest =>
      have stops := head?_dropWhile_not (· != '.') text.toList.reverse
      rw [left] at stops
      have isDot : c = '.' := by simpa using stops
      exact ⟨rest, by rw [isDot]⟩
  obtain ⟨rest, left⟩ := found
  have whole : text.toList.reverse = text.toList.reverse.takeWhile (· != '.') ++ '.' :: rest := by
    rw [← left, takeWhile_append_dropWhile]
  apply String.toList_injective
  rw [← reverse_inj, whole]
  simp [rsplitOnceDot, left]

/-- The entry of an alias table under a key. -/
def aliasEntry (aliases : List (String × TypeAlias)) (key : String) : Option (String × TypeAlias) :=
  aliases.find? fun entry => entry.1 = key

/-- The alias that a qualified name stands for: the name itself, or the default type of a module
of that name. -/
def qualifiedAlias (aliases : List (String × TypeAlias)) (module name : String) :
    Option (String × TypeAlias) :=
  let qualifiedName := module ++ "." ++ name
  (aliasEntry aliases qualifiedName).or (aliasEntry aliases (qualifiedName ++ "." ++ name))

/-- What `expand_type_aliases` does with a name. -/
def transparentReference (aliases : List (String × TypeAlias)) :
    Option String → String → Nat → Reference
  | none, name, arity =>
    match aliasEntry aliases name with
    | none => .keep none name
    | some (_, entry) =>
      if entry.isOpaque then .keep none name
      else if entry.params.length ≠ arity then .stay
      else .unfold name entry.params entry.body
  | some module, name, arity =>
    match qualifiedAlias aliases module name with
    | none => .keep (some module) name
    | some (key, entry) =>
      if entry.isOpaque then .keep (some (rsplitOnceDot key).1) (rsplitOnceDot key).2
      else if entry.params.length ≠ arity then .stay
      else .unfold key entry.params entry.body

/-- What `reveal_opaque_aliases` does with a name. -/
def opaqueReference (aliases : List (String × TypeAlias)) (currentModule : String)
    (module : Option String) (name : String) (arity : Nat) : Reference :=
  if module.all (· = currentModule) then
    match aliasEntry aliases name with
    | none => .keep module name
    | some (_, entry) =>
      if entry.isOpaque ∧ entry.params.length = arity then .unfold name entry.params entry.body
      else .keep module name
  else .keep module name

theorem aliasEntry_some {aliases : List (String × TypeAlias)} {key : String}
    {entry : String × TypeAlias} (h : aliasEntry aliases key = some entry) :
    entry ∈ aliases ∧ entry.1 = key :=
  ⟨mem_of_find?_eq_some h, by simpa using find?_some h⟩

theorem qualifiedAlias_some {aliases : List (String × TypeAlias)} {module name key : String}
    {entry : TypeAlias} (h : qualifiedAlias aliases module name = some (key, entry)) :
    aliasEntry aliases key = some (key, entry) ∧ '.' ∈ key.toList := by
  unfold qualifiedAlias at h
  rcases Option.or_eq_some_iff.mp h with found | ⟨-, found⟩
  · have same := (aliasEntry_some found).2
    dsimp only at same
    exact ⟨same ▸ found, by simp [same]⟩
  · have same := (aliasEntry_some found).2
    dsimp only at same
    exact ⟨same ▸ found, by simp [same]⟩

theorem transparentReference_unfold {aliases : List (String × TypeAlias)} {module : Option String}
    {name key : String} {arity : Nat} {params : List TypeVarId} {body : Ty}
    (h : transparentReference aliases module name arity = .unfold key params body) :
    key ∈ aliases.map Prod.fst := by
  unfold transparentReference at h
  split at h
  · split at h
    · cases h
    · next entry found =>
      split at h
      · cases h
      split at h
      · cases h
      · cases h
        obtain ⟨mem, rfl⟩ := aliasEntry_some found
        exact mem_map_of_mem mem
  · split at h
    · cases h
    · next found =>
      split at h
      · cases h
      split at h
      · cases h
      · cases h
        exact mem_map_of_mem (aliasEntry_some (qualifiedAlias_some found).1).1

theorem transparentReference_keep {aliases : List (String × TypeAlias)}
    {module module' : Option String} {name name' : String} {arity : Nat}
    (h : transparentReference aliases module name arity = .keep module' name') :
    transparentReference aliases module' name' arity = .keep module' name' := by
  have given := h
  unfold transparentReference at h
  split at h
  · split at h
    · cases h
      exact given
    · split at h
      · cases h
        exact given
      · split at h <;> cases h
  · split at h
    · cases h
      exact given
    · next key entry found =>
      split at h
      · next isOpaque =>
        cases h
        obtain ⟨entered, dot⟩ := qualifiedAlias_some found
        have again : qualifiedAlias aliases (rsplitOnceDot key).1 (rsplitOnceDot key).2 =
            some (key, entry) := by
          rw [qualifiedAlias, rsplitOnceDot_join dot, entered, Option.some_or]
        simp [transparentReference, again, isOpaque]
      · split at h <;> cases h

theorem opaqueReference_unfold {aliases : List (String × TypeAlias)} {currentModule : String}
    {module : Option String} {name key : String} {arity : Nat} {params : List TypeVarId} {body : Ty}
    (h : opaqueReference aliases currentModule module name arity = .unfold key params body) :
    key ∈ aliases.map Prod.fst := by
  unfold opaqueReference at h
  split at h
  · split at h
    · cases h
    · next entry found =>
      split at h
      · cases h
        obtain ⟨mem, rfl⟩ := aliasEntry_some found
        exact mem_map_of_mem mem
      · cases h
  · cases h

theorem opaqueReference_keep {aliases : List (String × TypeAlias)} {currentModule : String}
    {module module' : Option String} {name name' : String} {arity : Nat}
    (h : opaqueReference aliases currentModule module name arity = .keep module' name') :
    module' = module ∧ name' = name := by
  unfold opaqueReference at h
  split at h
  · split at h
    · cases h
      exact ⟨rfl, rfl⟩
    · split at h
      · cases h
      · cases h
        exact ⟨rfl, rfl⟩
  · cases h
    exact ⟨rfl, rfl⟩

/-- The aliases that `expand_type_aliases` unfolds. -/
def transparentAliases (aliases : List (String × TypeAlias)) : Unfolding where
  keys := aliases.map Prod.fst
  refer := transparentReference aliases
  clones := true
  known := transparentReference_unfold
  spelling := transparentReference_keep

/-- The aliases that `reveal_opaque_aliases` unfolds. -/
def opaqueAliases (aliases : List (String × TypeAlias)) (currentModule : String) : Unfolding where
  keys := aliases.map Prod.fst
  refer := opaqueReference aliases currentModule
  clones := false
  known := opaqueReference_unfold
  spelling := by
    intro module name arity module' name' reference
    obtain ⟨rfl, rfl⟩ := opaqueReference_keep reference
    exact reference

/-- `expand_type_aliases`. -/
def expandTypeAliases (fuel : Nat) (ty : Ty) (aliases : List (String × TypeAlias)) : Option Ty :=
  (transparentAliases aliases).expand fuel [] ty

/-- `reveal_opaque_aliases`. -/
def revealOpaqueAliases (fuel : Nat) (ty : Ty) (aliases : List (String × TypeAlias))
    (currentModule : String) : Option Ty :=
  (opaqueAliases aliases currentModule).expand fuel [] ty

/-! ## Correctness -/

/-- Every expansion that unfolding the type looks at ends, with the unfolded type; where unfolding
never comes back to an alias, this is the type after single unfoldings, until none is left. -/
def Correct (u : Unfolding) (ty : Ty) : Prop :=
  ∀ active part, Visits u [] ty active part →
    ∃ fuel result, u.expand fuel active part = some result ∧ Unfolded u active part result ∧
      ((∀ later inner, Visits u active part later inner → ¬ Reenters u later inner) →
        Reaches u part result ∧ Normal u result)

theorem correct_iff {u : Unfolding} {ty : Ty} :
    Correct u ty ↔ ∀ active part, Visits u [] ty active part → Settles u active part := by
  rw [← expands_iff_settled]
  refine forall₃_congr fun active part _ => ⟨?_, ?_⟩
  · rintro ⟨fuel, result, found, unfolded, -⟩
    exact ⟨fuel, result, found, unfolded⟩
  · rintro ⟨fuel, result, found, unfolded⟩
    exact ⟨fuel, result, found, unfolded, fun acyclic =>
      ⟨reaches_of_unfolded unfolded, normal_of_unfolded unfolded acyclic⟩⟩

/-- `type A[X] = List[A[B]]` and `type B = Int`. -/
def cyclicAliases : List (String × TypeAlias) :=
  [("A", ⟨[0], .list (.named none "A" [.named none "B" []]), false⟩), ("B", ⟨[], .int, false⟩)]

theorem unfolded_inside {u : Unfolding} {path : List String} {ty result : Ty}
    (h : Unfolded u path ty result) (notNamed : ∀ module name args, ty ≠ .named module name args) :
    ∃ f : Ty → Ty, (∀ part ∈ ty.parts, Unfolded u path part (f part)) ∧ result = ty.mapParts f := by
  cases h with
  | inside _ each => exact ⟨_, each, rfl⟩
  | keep | stay | reenter | unfold => exact (notNamed _ _ _ rfl).elim

section Cyclic

theorem refer_A : (transparentAliases cyclicAliases).refer none "A" 1 =
    .unfold "A" [0] (.list (.named none "A" [.named none "B" []])) := rfl

theorem refer_B : (transparentAliases cyclicAliases).refer none "B" 0 = .unfold "B" [] .int := rfl

theorem substitutes_A : substituteTypeVars 0 [(0, .int)] (.list (.named none "A" [.named none "B" []])) =
    some (.list (.named none "A" [.named none "B" []])) := by
  simp [substituteTypeVars, Ty.rebuild, collect, Ty.parts, Ty.withParts]

theorem substitutes_B : substituteTypeVars 0 [] .int = some .int := by
  simp [substituteTypeVars, Ty.rebuild, collect, Ty.parts, Ty.withParts]

theorem expand_int (active : List String) :
    (transparentAliases cyclicAliases).expand 0 active .int = some .int := by
  simp [Unfolding.expand, Ty.rebuild, collect, Ty.parts, Ty.withParts]

theorem expand_B : (transparentAliases cyclicAliases).expand 0 ["A"] (.named none "B" []) = some .int := by
  rw [expand_unfold refer_B (by simp)]
  simp [collect, substitutes_B, expand_int]

theorem expand_A : (transparentAliases cyclicAliases).expand 0 ["A"] (.named none "A" [.named none "B" []]) =
    some (.named none "A" [.named none "B" []]) := by
  have clones : (transparentAliases cyclicAliases).clones = true := rfl
  rw [expand_reenter refer_A mem_cons_self]
  simp [collect, expand_B, clones]

end Cyclic

end Terlan.Typeck
