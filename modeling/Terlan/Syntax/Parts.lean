/-
  Subexpressions of an expression with the site each one stands at, rebuilding an expression
  from a head and subexpressions, and functions that are given by what they do at an
  expression with their results at its subexpressions.
-/
import Terlan.Syntax.Expr

namespace Terlan.Syntax

open SyntaxExprOutput List

/-! ## Parts -/

/-- One item for each subexpression of an expression. -/
structure SyntaxExprParts (ε : Type) where
  children : List ε
  letGuards : List (Option ε)
  fields : List (SyntaxExprFieldOutput ε)
  clauses : List (SyntaxClauseOutput ε)
  catchClauses : List (SyntaxClauseOutput ε)
  tryAfter : Option (SyntaxTryAfterOutput ε)
  htmlExprs : List ε

def SyntaxExprOutput.subexprs : SyntaxExprOutput → SyntaxExprParts SyntaxExprOutput
  | .node _ children letGuards fields clauses catchClauses tryAfter htmlExprs =>
    ⟨children, letGuards, fields, clauses, catchClauses, tryAfter, htmlExprs⟩

def SyntaxExprParts.rebuild (head : SyntaxExprHead) (parts : SyntaxExprParts SyntaxExprOutput) :
    SyntaxExprOutput :=
  .node head parts.children parts.letGuards parts.fields parts.clauses parts.catchClauses
    parts.tryAfter parts.htmlExprs

@[simp] theorem SyntaxExprParts.head_rebuild (head : SyntaxExprHead)
    (parts : SyntaxExprParts SyntaxExprOutput) : (parts.rebuild head).head = head := rfl

@[simp] theorem SyntaxExprParts.subexprs_rebuild (head : SyntaxExprHead)
    (parts : SyntaxExprParts SyntaxExprOutput) : (parts.rebuild head).subexprs = parts := rfl

theorem SyntaxExprParts.rebuild_eq_rebuild_iff {head other : SyntaxExprHead}
    {parts others : SyntaxExprParts SyntaxExprOutput} :
    parts.rebuild head = others.rebuild other ↔ head = other ∧ parts = others := by
  refine ⟨fun same => ?_, fun ⟨heads, parts⟩ => heads ▸ parts ▸ rfl⟩
  exact ⟨congrArg SyntaxExprOutput.head same, congrArg subexprs same⟩

theorem SyntaxExprOutput.rebuild_subexprs (e : SyntaxExprOutput) : e.subexprs.rebuild e.head = e := by
  cases e with
  | node => rfl

theorem SyntaxExprOutput.ext_iff (e f : SyntaxExprOutput) :
    e = f ↔ e.head = f.head ∧ e.subexprs = f.subexprs := by
  refine ⟨fun same => same ▸ ⟨rfl, rfl⟩, fun ⟨heads, parts⟩ => ?_⟩
  rw [← e.rebuild_subexprs, ← f.rebuild_subexprs, heads, parts]

/-- Where a subexpression stands. -/
inductive Site where
  | child (index : Nat)
  | letGuard (index : Nat)
  | field
  | clause (patterns : List SyntaxPatternOutput)
  | after
  | html

variable {α β γ : Type}

def SyntaxExprFieldOutput.map (f : α → β) (field : SyntaxExprFieldOutput α) :
    SyntaxExprFieldOutput β :=
  ⟨field.key, field.required, f field.value⟩

def SyntaxClauseOutput.map (f : List SyntaxPatternOutput → α → β) (clause : SyntaxClauseOutput α) :
    SyntaxClauseOutput β :=
  ⟨clause.patterns, clause.guard.map (f clause.patterns), f clause.patterns clause.body⟩

def SyntaxTryAfterOutput.map (f : α → β) (after : SyntaxTryAfterOutput α) : SyntaxTryAfterOutput β :=
  ⟨f after.trigger, f after.body⟩

def SyntaxExprParts.mapSites (f : Site → α → β) (parts : SyntaxExprParts α) : SyntaxExprParts β where
  children := parts.children.mapIdx fun index => f (.child index)
  letGuards := parts.letGuards.mapIdx fun index guard => guard.map (f (.letGuard index))
  fields := parts.fields.map (SyntaxExprFieldOutput.map (f .field))
  clauses := parts.clauses.map (SyntaxClauseOutput.map fun patterns => f (.clause patterns))
  catchClauses := parts.catchClauses.map (SyntaxClauseOutput.map fun patterns => f (.clause patterns))
  tryAfter := parts.tryAfter.map (SyntaxTryAfterOutput.map (f .after))
  htmlExprs := parts.htmlExprs.map (f .html)

def SyntaxExprParts.map (f : α → β) (parts : SyntaxExprParts α) : SyntaxExprParts β :=
  parts.mapSites fun _ => f

/-- The patterns of clauses changed, the items left as they are. -/
def SyntaxExprParts.mapPatterns (f : SyntaxPatternOutput → SyntaxPatternOutput)
    (parts : SyntaxExprParts α) : SyntaxExprParts α :=
  { parts with
    clauses := parts.clauses.map fun clause => { clause with patterns := clause.patterns.map f }
    catchClauses := parts.catchClauses.map fun clause =>
      { clause with patterns := clause.patterns.map f } }

/-- Other children in the place of the children, when there are any. -/
def SyntaxExprParts.withChildren (children : Option (List α)) (parts : SyntaxExprParts α) :
    SyntaxExprParts α :=
  { parts with children := children.getD parts.children }

def SyntaxExprParts.dropChildren (drop : Bool) (parts : SyntaxExprParts α) : SyntaxExprParts α :=
  if drop then { parts with children := [] } else parts

/-- An item stands at a site. -/
inductive SyntaxExprParts.At (parts : SyntaxExprParts α) : Site → α → Prop
  | child {index : Nat} {item : α} : parts.children[index]? = some item → At parts (.child index) item
  | letGuard {index : Nat} {item : α} : parts.letGuards[index]? = some (some item) →
      At parts (.letGuard index) item
  | field {field : SyntaxExprFieldOutput α} : field ∈ parts.fields → At parts .field field.value
  | guard {clause : SyntaxClauseOutput α} {item : α} :
      clause ∈ parts.clauses ∨ clause ∈ parts.catchClauses → clause.guard = some item →
      At parts (.clause clause.patterns) item
  | body {clause : SyntaxClauseOutput α} :
      clause ∈ parts.clauses ∨ clause ∈ parts.catchClauses → At parts (.clause clause.patterns) clause.body
  | trigger {after : SyntaxTryAfterOutput α} : parts.tryAfter = some after → At parts .after after.trigger
  | after {after : SyntaxTryAfterOutput α} : parts.tryAfter = some after → At parts .after after.body
  | html {item : α} : item ∈ parts.htmlExprs → At parts .html item

theorem SyntaxExprParts.At.mem_parts {e c : SyntaxExprOutput} {site : Site}
    (stands : e.subexprs.At site c) : c ∈ e.parts := by
  obtain ⟨head, children, letGuards, fields, clauses, catchClauses, tryAfter, htmlExprs⟩ := e
  simp only [SyntaxExprOutput.parts, mem_append, mem_flatMap, mem_map,
    SyntaxClauseOutput.parts, SyntaxTryAfterOutput.parts]
  cases stands with
  | child found => have := mem_of_getElem? found; tauto
  | letGuard found =>
    exact .inl (.inl (.inl (.inl (.inl (.inr ⟨_, mem_of_getElem? found, by simp⟩)))))
  | field mem => exact .inl (.inl (.inl (.inl (.inr ⟨_, mem, rfl⟩))))
  | guard mem isGuard =>
    have inside : c ∈ (SyntaxClauseOutput.guard _).toList := Option.mem_toList.mpr isGuard
    obtain mem | mem := mem
    · exact .inl (.inl (.inl (.inr ⟨_, mem, .inl inside⟩)))
    · exact .inl (.inl (.inr ⟨_, mem, .inl inside⟩))
  | body mem =>
    obtain mem | mem := mem
    · exact .inl (.inl (.inl (.inr ⟨_, mem, .inr (mem_singleton.mpr rfl)⟩)))
    · exact .inl (.inl (.inr ⟨_, mem, .inr (mem_singleton.mpr rfl)⟩))
  | trigger isAfter | after isAfter => exact .inl (.inr ⟨_, Option.mem_toList.mpr isAfter, by simp⟩)
  | html mem => exact .inr mem

/-! ## Laws of rebuilding -/

theorem SyntaxClauseOutput.map_eq_map_iff {f g : List SyntaxPatternOutput → α → β}
    {clause : SyntaxClauseOutput α} : clause.map f = clause.map g ↔
      (∀ item, clause.guard = some item → f clause.patterns item = g clause.patterns item) ∧
        f clause.patterns clause.body = g clause.patterns clause.body := by
  obtain ⟨patterns, _ | guard, body⟩ := clause <;> simp [SyntaxClauseOutput.map]

/-- Two rebuildings agree exactly when they agree on every item at its site. -/
theorem SyntaxExprParts.mapSites_eq_mapSites_iff {f g : Site → α → β} {parts : SyntaxExprParts α} :
    parts.mapSites f = parts.mapSites g ↔
      ∀ site item, parts.At site item → f site item = g site item := by
  constructor
  · intro same site item stands
    simp only [SyntaxExprParts.mapSites, SyntaxExprParts.mk.injEq] at same
    obtain ⟨children, letGuards, fields, clauses, catchClauses, tryAfter, htmlExprs⟩ := same
    have clauseAgrees : ∀ clause, clause ∈ parts.clauses ∨ clause ∈ parts.catchClauses →
        clause.map (fun patterns => f (.clause patterns)) =
          clause.map (fun patterns => g (.clause patterns)) := by
      rintro clause (mem | mem)
      · exact map_inj_left.mp clauses clause mem
      · exact map_inj_left.mp catchClauses clause mem
    cases stands with
    | @child index _ found =>
      have := congrArg (fun items => items[index]?) children
      simpa [found] using this
    | @letGuard index _ found =>
      have := congrArg (fun guards => guards[index]?) letGuards
      simpa [found] using this
    | field mem =>
      have := map_inj_left.mp fields _ mem
      simpa [SyntaxExprFieldOutput.map] using this
    | guard mem isGuard => exact (SyntaxClauseOutput.map_eq_map_iff.mp (clauseAgrees _ mem)).1 _ isGuard
    | body mem => exact (SyntaxClauseOutput.map_eq_map_iff.mp (clauseAgrees _ mem)).2
    | trigger isAfter | after isAfter =>
      simp only [isAfter, Option.map_some, SyntaxTryAfterOutput.map, Option.some.injEq,
        SyntaxTryAfterOutput.mk.injEq] at tryAfter
      first | exact tryAfter.1 | exact tryAfter.2
    | html mem => exact map_inj_left.mp htmlExprs _ mem
  · intro agree
    simp only [SyntaxExprParts.mapSites, SyntaxExprParts.mk.injEq]
    refine ⟨?_, ?_, ?_, ?_, ?_, ?_, ?_⟩
    · rw [mapIdx_eq_mapIdx_iff]
      exact fun index bound => agree _ _ (.child (getElem?_eq_getElem bound))
    · rw [mapIdx_eq_mapIdx_iff]
      intro index bound
      cases isGuard : parts.letGuards[index] with
      | none => rfl
      | some guard =>
        exact congrArg some (agree _ _ (.letGuard (by rw [getElem?_eq_getElem bound, isGuard])))
    · exact map_congr_left fun field mem =>
        congrArg (SyntaxExprFieldOutput.mk field.key field.required) (agree _ _ (.field mem))
    · exact map_congr_left fun clause mem => SyntaxClauseOutput.map_eq_map_iff.mpr
        ⟨fun _ isGuard => agree _ _ (.guard (.inl mem) isGuard), agree _ _ (.body (.inl mem))⟩
    · exact map_congr_left fun clause mem => SyntaxClauseOutput.map_eq_map_iff.mpr
        ⟨fun _ isGuard => agree _ _ (.guard (.inr mem) isGuard), agree _ _ (.body (.inr mem))⟩
    · cases isAfter : parts.tryAfter with
      | none => rfl
      | some after =>
        simp only [Option.map_some, SyntaxTryAfterOutput.map, agree _ _ (.trigger isAfter),
          agree _ _ (.after isAfter)]
    · exact map_congr_left fun item mem => agree _ _ (.html mem)

theorem SyntaxExprParts.mapSites_mapSites (g : Site → β → γ) (f : Site → α → β)
    (parts : SyntaxExprParts α) :
    (parts.mapSites f).mapSites g = parts.mapSites fun site item => g site (f site item) := by
  simp only [SyntaxExprParts.mapSites, mapIdx_mapIdx, map_map, Option.map_map,
    SyntaxExprParts.mk.injEq, Function.comp_def, SyntaxExprFieldOutput.map, SyntaxClauseOutput.map,
    SyntaxTryAfterOutput.map]
  exact ⟨trivial, trivial, rfl, rfl, rfl, rfl, trivial⟩

theorem SyntaxExprParts.mapSites_withChildren (f : Site → α → β) (children : Option (List α))
    (parts : SyntaxExprParts α) :
    (parts.withChildren children).mapSites f = (parts.mapSites f).withChildren
      (children.map fun children => children.mapIdx fun index => f (.child index)) := by
  cases children <;> rfl

theorem SyntaxClauseOutput.map_id (clause : SyntaxClauseOutput α) :
    clause.map (fun _ item => item) = clause := by
  obtain ⟨patterns, _ | guard, body⟩ := clause <;> rfl

theorem SyntaxExprParts.mapSites_id (parts : SyntaxExprParts α) :
    parts.mapSites (fun _ item => item) = parts := by
  obtain ⟨children, letGuards, fields, clauses, catchClauses, tryAfter, htmlExprs⟩ := parts
  have fieldMap : SyntaxExprFieldOutput.map (fun item : α => item) = id := rfl
  have afterMap : SyntaxTryAfterOutput.map (fun item : α => item) = id := rfl
  have clauseMap : SyntaxClauseOutput.map (fun _ (item : α) => item) = id :=
    funext SyntaxClauseOutput.map_id
  simp [SyntaxExprParts.mapSites, fieldMap, afterMap, clauseMap, mapIdx_eq_zipIdx_map]

theorem map_eq_self_iff {f : α → α} {items : List α} :
    items.map f = items ↔ ∀ item ∈ items, f item = item := by
  have := @map_inj_left _ _ items f id
  rwa [List.map_id] at this

theorem SyntaxExprParts.mapPatterns_map (s : SyntaxPatternOutput → SyntaxPatternOutput) (f : α → β)
    (parts : SyntaxExprParts α) : (parts.map f).mapPatterns s = (parts.mapPatterns s).map f := by
  simp [SyntaxExprParts.mapPatterns, SyntaxExprParts.map, SyntaxExprParts.mapSites,
    SyntaxClauseOutput.map]

theorem SyntaxExprParts.mapPatterns_mapSites (s : SyntaxPatternOutput → SyntaxPatternOutput)
    (f : Site → β → γ) (g : α → β) (parts : SyntaxExprParts α) :
    ((parts.map g).mapPatterns s).mapSites f =
      (parts.mapPatterns s).mapSites fun site item => f site (g item) := by
  rw [SyntaxExprParts.mapPatterns_map, SyntaxExprParts.map, SyntaxExprParts.mapSites_mapSites]

variable {s : SyntaxPatternOutput → SyntaxPatternOutput}

/-- Changing patterns moves items to other sites at most. -/
theorem SyntaxExprParts.At.of_mapPatterns
    {parts : SyntaxExprParts α} {site : Site} {item : α} (stands : (parts.mapPatterns s).At site item) :
    ∃ origin, parts.At origin item := by
  have clauseOrigin : ∀ clause : SyntaxClauseOutput α,
      clause ∈ (parts.mapPatterns s).clauses ∨ clause ∈ (parts.mapPatterns s).catchClauses →
      ∃ origin, (origin ∈ parts.clauses ∨ origin ∈ parts.catchClauses) ∧
        { origin with patterns := origin.patterns.map s } = clause := by
    rintro clause (mem | mem)
    · obtain ⟨origin, mem, same⟩ := mem_map.mp mem
      exact ⟨origin, .inl mem, same⟩
    · obtain ⟨origin, mem, same⟩ := mem_map.mp mem
      exact ⟨origin, .inr mem, same⟩
  cases stands with
  | child found => exact ⟨_, .child found⟩
  | letGuard found => exact ⟨_, .letGuard found⟩
  | field mem => exact ⟨_, .field mem⟩
  | guard mem isGuard =>
    obtain ⟨origin, originMem, rfl⟩ := clauseOrigin _ mem
    exact ⟨_, .guard originMem isGuard⟩
  | body mem =>
    obtain ⟨origin, originMem, rfl⟩ := clauseOrigin _ mem
    exact ⟨_, @SyntaxExprParts.At.body _ _ origin originMem⟩
  | trigger isAfter => exact ⟨_, .trigger isAfter⟩
  | after isAfter => exact ⟨_, .after isAfter⟩
  | html mem => exact ⟨_, .html mem⟩

theorem SyntaxExprParts.mapPatterns_eq_self_iff {parts : SyntaxExprParts α} :
    parts.mapPatterns s = parts ↔ ∀ clause, clause ∈ parts.clauses ∨ clause ∈ parts.catchClauses →
        ∀ pattern ∈ clause.patterns, s pattern = pattern := by
  have clauseFixed : ∀ clause : SyntaxClauseOutput α,
      { clause with patterns := clause.patterns.map s } = clause ↔
        ∀ pattern ∈ clause.patterns, s pattern = pattern := by
    rintro ⟨patterns, guard, body⟩
    simp [map_eq_self_iff]
  obtain ⟨children, letGuards, fields, clauses, catchClauses, tryAfter, htmlExprs⟩ := parts
  simp only [SyntaxExprParts.mapPatterns, SyntaxExprParts.mk.injEq, true_and, and_true,
    map_eq_self_iff, clauseFixed]
  exact ⟨fun ⟨fixed, fixedCatch⟩ clause mem => mem.elim (fixed clause) (fixedCatch clause),
    fun fixed => ⟨fun clause mem => fixed clause (.inl mem), fun clause mem => fixed clause (.inr mem)⟩⟩

/-- Rebuilding does not change the patterns of clauses. -/
theorem SyntaxExprParts.mapPatterns_eq_of_mapSites_eq
    {f : Site → α → α} {parts : SyntaxExprParts α} (same : (parts.mapPatterns s).mapSites f = parts) :
    parts.mapPatterns s = parts := by
  have patternsFixed : ∀ clauses : List (SyntaxClauseOutput α),
      (clauses.map fun clause => { clause with patterns := clause.patterns.map s }).map
        (SyntaxClauseOutput.map fun patterns => f (.clause patterns)) = clauses →
      ∀ clause ∈ clauses, ∀ pattern ∈ clause.patterns, s pattern = pattern := by
    intro clauses same clause mem
    rw [map_map, map_eq_self_iff] at same
    exact map_eq_self_iff.mp (congrArg SyntaxClauseOutput.patterns (same clause mem))
  refine SyntaxExprParts.mapPatterns_eq_self_iff.mpr ?_
  rintro clause (mem | mem)
  · exact patternsFixed _ (congrArg SyntaxExprParts.clauses same) clause mem
  · exact patternsFixed _ (congrArg SyntaxExprParts.catchClauses same) clause mem

/-- Two rebuildings with the same children written in agree exactly when they agree on the items
beside the children; without, when they agree on all items. -/
theorem SyntaxExprParts.withChildren_mapSites_eq_iff {f g : Site → α → β} {parts : SyntaxExprParts α}
    {children : Option (List β)} :
    (parts.mapSites f).withChildren children = (parts.mapSites g).withChildren children ↔
      ∀ site item, (parts.dropChildren children.isSome).At site item → f site item = g site item := by
  cases children with
  | none => exact SyntaxExprParts.mapSites_eq_mapSites_iff
  | some children =>
    have emptied := @SyntaxExprParts.mapSites_eq_mapSites_iff _ _ f g (parts.dropChildren true)
    refine Iff.trans ?_ emptied
    simp [SyntaxExprParts.withChildren, SyntaxExprParts.dropChildren, SyntaxExprParts.mapSites]

theorem SyntaxExprParts.At.of_dropChildren {drop : Bool} {parts : SyntaxExprParts α} {site : Site}
    {item : α} (stands : (parts.dropChildren drop).At site item) : parts.At site item := by
  cases drop with
  | false => exact stands
  | true =>
    cases stands with
    | child found => exact absurd found nofun
    | letGuard found => exact .letGuard found
    | field mem => exact .field mem
    | guard mem isGuard => exact .guard mem isGuard
    | body mem => exact .body mem
    | trigger isAfter => exact .trigger isAfter
    | after isAfter => exact .after isAfter
    | html mem => exact .html mem

/-! ## Recursion -/

section fold

variable {ρ : Type} (step : SyntaxExprOutput → SyntaxExprParts ρ → ρ)

mutual

/-- The function that `step` gives at an expression from its results at the subexpressions. -/
def SyntaxExprOutput.fold : SyntaxExprOutput → ρ
  | .node head children letGuards fields clauses catchClauses tryAfter htmlExprs =>
    step (.node head children letGuards fields clauses catchClauses tryAfter htmlExprs)
      ⟨foldList children, foldGuards letGuards, foldFields fields, foldClauses clauses,
        foldClauses catchClauses, foldAfter tryAfter, foldList htmlExprs⟩

def SyntaxExprOutput.foldList : List SyntaxExprOutput → List ρ
  | [] => []
  | item :: items => item.fold :: foldList items

def SyntaxExprOutput.foldGuards : List (Option SyntaxExprOutput) → List (Option ρ)
  | [] => []
  | none :: guards => none :: foldGuards guards
  | some guard :: guards => some guard.fold :: foldGuards guards

def SyntaxExprOutput.foldFields :
    List (SyntaxExprFieldOutput SyntaxExprOutput) → List (SyntaxExprFieldOutput ρ)
  | [] => []
  | ⟨key, required, value⟩ :: fields => ⟨key, required, value.fold⟩ :: foldFields fields

def SyntaxExprOutput.foldClauses :
    List (SyntaxClauseOutput SyntaxExprOutput) → List (SyntaxClauseOutput ρ)
  | [] => []
  | ⟨patterns, none, body⟩ :: clauses => ⟨patterns, none, body.fold⟩ :: foldClauses clauses
  | ⟨patterns, some guard, body⟩ :: clauses =>
    ⟨patterns, some guard.fold, body.fold⟩ :: foldClauses clauses

def SyntaxExprOutput.foldAfter :
    Option (SyntaxTryAfterOutput SyntaxExprOutput) → Option (SyntaxTryAfterOutput ρ)
  | none => none
  | some ⟨trigger, body⟩ => some ⟨trigger.fold, body.fold⟩

end

theorem SyntaxExprOutput.foldList_eq (items : List SyntaxExprOutput) :
    foldList step items = items.map (fold step) := by
  induction items with
  | nil => rfl
  | cons item items ih => rw [foldList, ih, map_cons]

theorem SyntaxExprOutput.foldGuards_eq (guards : List (Option SyntaxExprOutput)) :
    foldGuards step guards = guards.map (Option.map (fold step)) := by
  induction guards with
  | nil => rfl
  | cons guard guards ih => cases guard <;> rw [foldGuards, ih] <;> rfl

theorem SyntaxExprOutput.foldFields_eq (fields : List (SyntaxExprFieldOutput SyntaxExprOutput)) :
    foldFields step fields = fields.map (SyntaxExprFieldOutput.map (fold step)) := by
  induction fields with
  | nil => rfl
  | cons field fields ih => rw [foldFields, ih]; rfl

theorem SyntaxExprOutput.foldClauses_eq (clauses : List (SyntaxClauseOutput SyntaxExprOutput)) :
    foldClauses step clauses = clauses.map (SyntaxClauseOutput.map fun _ => fold step) := by
  induction clauses with
  | nil => rfl
  | cons clause clauses ih =>
    obtain ⟨patterns, _ | guard, body⟩ := clause <;> rw [foldClauses, ih] <;> rfl

theorem SyntaxExprOutput.fold_eq (e : SyntaxExprOutput) :
    e.fold step = step e (e.subexprs.map (fold step)) := by
  obtain ⟨head, children, letGuards, fields, clauses, catchClauses, tryAfter, htmlExprs⟩ := e
  have after : SyntaxExprOutput.foldAfter step tryAfter =
      tryAfter.map (SyntaxTryAfterOutput.map (fold step)) := by
    cases tryAfter <;> rfl
  rw [fold]
  simp only [SyntaxExprOutput.foldList_eq, SyntaxExprOutput.foldGuards_eq,
    SyntaxExprOutput.foldFields_eq, SyntaxExprOutput.foldClauses_eq, after, SyntaxExprParts.map,
    SyntaxExprParts.mapSites, subexprs]
  congr 2
  · exact ext_getElem? fun index => by simp
  · exact ext_getElem? fun index => by simp

end fold

end Terlan.Syntax
