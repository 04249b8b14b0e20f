/-
  Normalization of short-circuit chains: inside out, a chain of one operator `and` or `or` is
  collected into its terms and rebuilt as a right spine.

  `normalize` visits every subexpression (`normalize_eq`), so its properties are inductions
  over subexpressions around one fact each about the rebuilding of a chain: meaning is kept
  since short-circuit operators are associative, with the effects of the operands and the
  failures of the conditions (`operate_assoc`), and a rebuilt chain is a right spine, which
  normalization leaves alone.
-/
import Terlan.CoreIr.Eval

namespace Terlan.NativeIr

open Terlan.Lib Terlan.CoreIr List

/-! ## The pass -/

/-- The terms of a chain of one operator, in order. -/
def collectTerms (operator : String) : CoreExpr → List CoreExpr
  | .binaryOp nested left right =>
    if nested = operator then collectTerms operator left ++ collectTerms operator right
    else [.binaryOp nested left right]
  | term => [term]

/-- The right spine over the terms, built from its end; without terms the given expression. -/
def rebuild (operator : String) (terms : List CoreExpr) (empty : CoreExpr) : CoreExpr :=
  match terms.reverse with
  | [] => empty
  | last :: front => front.foldl (fun rebuilt term => .binaryOp operator term rebuilt) last

/-- The operators whose chains are normalized. -/
def isShortCircuit (operator : String) : Bool := operator = "and" ∨ operator = "or"

/-- Puts a chain at the root of an expression in order. -/
def reassociate : CoreExpr → CoreExpr
  | .binaryOp operator left right =>
    if isShortCircuit operator then
      rebuild operator (collectTerms operator left ++ collectTerms operator right)
        (.binaryOp operator (.atom "false") (.atom "false"))
    else .binaryOp operator left right
  | e => e

mutual

def normalize : CoreExpr → CoreExpr
  | .call function typeArgs args => .call function typeArgs (normalizeList args)
  | .remoteCall module function typeArgs args =>
    .remoteCall module function typeArgs (normalizeList args)
  | .constructorCall constructor identity typeArgs args =>
    .constructorCall constructor identity typeArgs (normalizeList args)
  | .tuple items => .tuple (normalizeList items)
  | .list items => .list (normalizeList items)
  | .array items => .array (normalizeList items)
  | .listCons head tail => .listCons (normalize head) (normalize tail)
  | .index base position => .index (normalize base) (normalize position)
  | .binaryOp operator left right =>
    reassociate (.binaryOp operator (normalize left) (normalize right))
  | .listComprehension expr generators guards lift =>
    .listComprehension (normalize expr) (normalizeBindings generators) (normalizeList guards) lift
  | .letIn bindings body => .letIn (normalizeBindings bindings) (normalize body)
  | .map fields => .map (normalizeFields fields)
  | .recordConstruct name fields => .recordConstruct name (normalizeFields fields)
  | .templateInstantiate name fields => .templateInstantiate name (normalizeFields fields)
  | .recordUpdate base name fields => .recordUpdate (normalize base) name (normalizeFields fields)
  | .fieldAccess base field => .fieldAccess (normalize base) field
  | .recordAccess base name field => .recordAccess (normalize base) name field
  | .unaryOp operator operand => .unaryOp operator (normalize operand)
  | .cast expr targetType => .cast (normalize expr) targetType
  | .constructorChain base identity typeArgs args record =>
    .constructorChain base identity typeArgs (normalizeList args) (normalize record)
  | .mutableReceiverCall receiver method args effects =>
    .mutableReceiverCall (normalize receiver) method (normalizeList args) effects
  | .functionCall callee args => .functionCall (normalize callee) (normalizeList args)
  | .intrinsic operation args => .intrinsic operation (normalizeList args)
  | .sqlQuery query parameters => .sqlQuery query (normalizeList parameters)
  | .caseOf scrutinee clauses => .caseOf (normalize scrutinee) (normalizeClauses clauses)
  | .tryOf body ofClauses catchClauses afterClause =>
    .tryOf (normalize body) (normalizeClauses ofClauses) (normalizeClauses catchClauses)
      (normalizeAfter afterClause)
  | .ifOf clauses => .ifOf (normalizeIfs clauses)
  | .lam params parameterTypes body => .lam params parameterTypes (normalize body)
  | .int value => .int value
  | .float text => .float text
  | .binary text => .binary text
  | .atom name => .atom name
  | .var name => .var name
  | .remoteFunRef module function arity => .remoteFunRef module function arity

def normalizeList : List CoreExpr → List CoreExpr
  | [] => []
  | e :: es => normalize e :: normalizeList es

def normalizeBindings : List (CoreLetBinding CoreExpr) → List (CoreLetBinding CoreExpr)
  | [] => []
  | binding :: bindings =>
    { binding with value := normalize binding.value } :: normalizeBindings bindings

def normalizeFields : List (CoreExprField CoreExpr) → List (CoreExprField CoreExpr)
  | [] => []
  | field :: fields => { field with value := normalize field.value } :: normalizeFields fields

def normalizeClauses : List (CoreCaseClause CoreExpr) → List (CoreCaseClause CoreExpr)
  | [] => []
  | clause :: clauses =>
    { clause with guard := normalizeGuard clause.guard, body := normalize clause.body } ::
      normalizeClauses clauses

def normalizeGuard : Option CoreExpr → Option CoreExpr
  | none => none
  | some guard => some (normalize guard)

def normalizeIfs : List (CoreIfClause CoreExpr) → List (CoreIfClause CoreExpr)
  | [] => []
  | clause :: clauses =>
    { condition := normalize clause.condition, body := normalize clause.body } ::
      normalizeIfs clauses

def normalizeAfter : Option (CoreTryAfter CoreExpr) → Option (CoreTryAfter CoreExpr)
  | none => none
  | some after => some { trigger := normalize after.trigger, body := normalize after.body }

end

/-! ## The traversal -/

theorem normalizeList_eq (es : List CoreExpr) : normalizeList es = es.map normalize := by
  induction es with
  | nil => rfl
  | cons e es ih => rw [normalizeList, ih, map_cons]

theorem normalizeBindings_eq (bindings : List (CoreLetBinding CoreExpr)) :
    normalizeBindings bindings = bindings.map (·.mapValue normalize) := by
  induction bindings with
  | nil => rfl
  | cons binding bindings ih => rw [normalizeBindings, ih, map_cons, CoreLetBinding.mapValue]

theorem normalizeFields_eq (fields : List (CoreExprField CoreExpr)) :
    normalizeFields fields = fields.map (·.mapValue normalize) := by
  induction fields with
  | nil => rfl
  | cons field fields ih => rw [normalizeFields, ih, map_cons, CoreExprField.mapValue]

theorem normalizeGuard_eq (guard : Option CoreExpr) : normalizeGuard guard = guard.map normalize := by
  cases guard with
  | none | some => rfl

theorem normalizeClauses_eq (clauses : List (CoreCaseClause CoreExpr)) :
    normalizeClauses clauses = clauses.map (·.mapExprs normalize) := by
  induction clauses with
  | nil => rfl
  | cons clause clauses ih =>
    rw [normalizeClauses, ih, map_cons, CoreCaseClause.mapExprs, normalizeGuard_eq]

theorem normalizeIfs_eq (clauses : List (CoreIfClause CoreExpr)) :
    normalizeIfs clauses = clauses.map (·.mapExprs normalize) := by
  induction clauses with
  | nil => rfl
  | cons clause clauses ih => rw [normalizeIfs, ih, map_cons, CoreIfClause.mapExprs]

theorem normalizeAfter_eq (after : Option (CoreTryAfter CoreExpr)) :
    normalizeAfter after = after.map (·.mapExprs normalize) := by
  cases after with
  | none | some => rfl

/-- No subexpression is left out. -/
theorem normalize_eq (e : CoreExpr) : normalize e = reassociate (e.mapChildren normalize) := by
  cases e <;>
    simp only [normalize, CoreExpr.mapChildren, reassociate, normalizeList_eq, normalizeBindings_eq,
      normalizeFields_eq, normalizeClauses_eq, normalizeIfs_eq, normalizeAfter_eq]

/-- Only a chain of `and` or `or` is put in order. -/
theorem reassociate_cases (e : CoreExpr) :
    (∃ operator left right, e = .binaryOp operator left right ∧ isShortCircuit operator ∧
      reassociate e = rebuild operator (collectTerms operator left ++ collectTerms operator right)
        (.binaryOp operator (.atom "false") (.atom "false"))) ∨
    (∀ operator left right, e = .binaryOp operator left right → ¬ isShortCircuit operator) ∧
      reassociate e = e := by
  unfold reassociate
  split
  next operator left right =>
    split
    next short => exact .inl ⟨operator, left, right, rfl, short, rfl⟩
    next strict =>
      refine .inr ⟨fun operator' left' right' same => ?_, rfl⟩
      injection same with same
      exact same ▸ strict
  next noChain =>
    exact .inr ⟨fun operator left right same => absurd same (noChain operator left right), rfl⟩

/-! ## Right spines -/

/-- The left operand of a short-circuit operator is not an application of the same operator. -/
def SpineRight (e : CoreExpr) : Prop :=
  ∀ operator left right, e = .binaryOp operator left right → isShortCircuit operator →
    ∀ a b, left ≠ .binaryOp operator a b

/-- Every chain in the expression is a right spine. -/
def RightAssociated (e : CoreExpr) : Prop := e.Everywhere SpineRight

theorem rebuild_singleton (operator : String) (term empty : CoreExpr) :
    rebuild operator [term] empty = term := rfl

theorem rebuild_cons (operator : String) (term : CoreExpr) {terms : List CoreExpr}
    (nonempty : terms ≠ []) (empty : CoreExpr) :
    rebuild operator (term :: terms) empty = .binaryOp operator term (rebuild operator terms empty) := by
  unfold rebuild
  rw [reverse_cons]
  cases h : terms.reverse with
  | nil => exact absurd (reverse_eq_nil_iff.mp h) nonempty
  | cons last front => simp only [cons_append, foldl_append, foldl_cons, foldl_nil]

/-- An expression is an application of the operator, or a term of its own. -/
theorem collectTerms_cases (operator : String) (e : CoreExpr) :
    (∃ left right, e = .binaryOp operator left right ∧ collectTerms operator e =
      collectTerms operator left ++ collectTerms operator right) ∨
    (∀ a b, e ≠ .binaryOp operator a b) ∧ collectTerms operator e = [e] := by
  by_cases chain : ∃ left right, e = .binaryOp operator left right
  · obtain ⟨left, right, rfl⟩ := chain
    exact .inl ⟨left, right, rfl, by rw [collectTerms, if_pos rfl]⟩
  refine .inr ⟨fun a b same => chain ⟨a, b, same⟩, ?_⟩
  unfold collectTerms
  split
  next nested left right =>
    exact if_neg fun same => chain ⟨left, right, by rw [same]⟩
  next => rfl

theorem collectTerms_ne_nil (operator : String) (e : CoreExpr) : collectTerms operator e ≠ [] := by
  induction e using CoreExpr.induction with
  | step e ih =>
    rcases collectTerms_cases operator e with ⟨left, right, rfl, terms⟩ | ⟨_, terms⟩
    · rw [terms]
      have leftTerms := ih left mem_cons_self
      exact fun none => leftTerms (append_eq_nil_iff.mp none).1
    · rw [terms]
      exact cons_ne_nil _ _

variable {operator : String} {e : CoreExpr}

theorem collectTerms_of_ne
    (h : ∀ a b, e ≠ .binaryOp operator a b) : collectTerms operator e = [e] := by
  rcases collectTerms_cases operator e with ⟨left, right, same, _⟩ | ⟨_, terms⟩
  · exact absurd same (h left right)
  · exact terms

theorem collectTerms_binaryOp (operator : String) (left right : CoreExpr) :
    collectTerms operator (.binaryOp operator left right) =
      collectTerms operator left ++ collectTerms operator right := by
  rcases collectTerms_cases operator (.binaryOp operator left right) with
    ⟨_, _, same, terms⟩ | ⟨noChain, _⟩
  · cases same
    exact terms
  · exact absurd rfl (noChain left right)

/-- The terms of a chain are not chains of its operator. -/
theorem collectTerms_term (operator : String) (e : CoreExpr) :
    ∀ term ∈ collectTerms operator e, ∀ a b, term ≠ .binaryOp operator a b := by
  induction e using CoreExpr.induction with
  | step e ih =>
    rcases collectTerms_cases operator e with ⟨left, right, rfl, terms⟩ | ⟨noChain, terms⟩
    · rw [terms]
      exact forall_mem_append.mpr ⟨ih left mem_cons_self,
        ih right (mem_cons_of_mem _ mem_cons_self)⟩
    · rw [terms]
      exact forall_mem_singleton.mpr noChain

/-- What holds everywhere in a chain holds everywhere in its terms. -/
theorem collectTerms_everywhere {p : CoreExpr → Prop} (operator : String)
    (h : e.Everywhere p) : ∀ term ∈ collectTerms operator e, term.Everywhere p := by
  induction e using CoreExpr.induction with
  | step e ih =>
    rcases collectTerms_cases operator e with ⟨left, right, rfl, terms⟩ | ⟨_, terms⟩
    · obtain ⟨atLeft, atRight⟩ := forall_mem_cons.mp h.nested
      rw [terms]
      exact forall_mem_append.mpr ⟨ih left mem_cons_self atLeft,
        ih right (mem_cons_of_mem _ mem_cons_self)
          (forall_mem_singleton.mp atRight)⟩
    · rw [terms]
      exact forall_mem_singleton.mpr h

theorem spineRight_binaryOp {left right : CoreExpr}
    (h : isShortCircuit operator → ∀ a b, left ≠ .binaryOp operator a b) :
    SpineRight (.binaryOp operator left right) := by
  intro operator' left' right' same short
  injection same with same₁ same₂
  subst same₁ same₂
  exact h short

theorem rightAssociated_rebuild (operator : String) {terms : List CoreExpr} (nonempty : terms ≠ [])
    (each : ∀ term ∈ terms, RightAssociated term)
    (noChain : ∀ term ∈ terms, ∀ a b, term ≠ .binaryOp operator a b) (empty : CoreExpr) :
    RightAssociated (rebuild operator terms empty) := by
  induction terms with
  | nil => exact absurd rfl nonempty
  | cons term terms ih =>
    obtain ⟨own, others⟩ := forall_mem_cons.mp each
    obtain ⟨ownTerm, otherTerms⟩ := forall_mem_cons.mp noChain
    by_cases last : terms = []
    · subst last
      exact own
    · rw [rebuild_cons operator term last]
      exact .mk (spineRight_binaryOp fun _ => ownTerm)
        (forall_mem_two own (ih last others otherTerms))

/-- After normalization every chain is a right spine. -/
theorem rightAssociated_normalize (e : CoreExpr) : RightAssociated (normalize e) := by
  induction e using CoreExpr.induction with
  | step e ih =>
    have children : ∀ c ∈ (e.mapChildren normalize).children, RightAssociated c := by
      rw [children_mapChildren]
      exact forall_mem_map.mpr ih
    rw [normalize_eq]
    rcases reassociate_cases (e.mapChildren normalize) with
      ⟨operator, left, right, same, _, result⟩ | ⟨strict, result⟩
    · rw [same] at children
      obtain ⟨atLeft, rest⟩ := forall_mem_cons.mp children
      have atRight := forall_mem_singleton.mp rest
      rw [result]
      apply rightAssociated_rebuild
      · exact fun none => collectTerms_ne_nil operator left (append_eq_nil_iff.mp none).1
      · exact forall_mem_append.mpr ⟨collectTerms_everywhere operator atLeft,
          collectTerms_everywhere operator atRight⟩
      · exact forall_mem_append.mpr ⟨collectTerms_term operator left,
          collectTerms_term operator right⟩
    · rw [result]
      exact .mk (fun operator left right same short =>
        absurd short (strict operator left right same)) children

/-- A right spine is rebuilt as it was. -/
theorem rebuild_collectTerms (short : isShortCircuit operator)
    (h : RightAssociated e) (empty : CoreExpr) :
    rebuild operator (collectTerms operator e) empty = e := by
  induction e using CoreExpr.induction with
  | step e ih =>
    by_cases chain : ∃ left right, e = .binaryOp operator left right
    · obtain ⟨left, right, rfl⟩ := chain
      have single := collectTerms_of_ne (h.here operator left right rfl short)
      have rest := ih right (mem_cons_of_mem _ mem_cons_self)
        (h.nested right (mem_cons_of_mem _ mem_cons_self))
      rw [collectTerms_binaryOp, single, singleton_append,
        rebuild_cons operator left (collectTerms_ne_nil operator right), rest]
    · rw [collectTerms_of_ne fun a b same => chain ⟨a, b, same⟩, rebuild_singleton]

/-- Normalization leaves right spines alone. -/
theorem normalize_of_rightAssociated (h : RightAssociated e) : normalize e = e := by
  induction e using CoreExpr.induction with
  | step e ih =>
    rw [normalize_eq, mapChildren_eq_self fun c mem => ih c mem (h.nested c mem)]
    rcases reassociate_cases e with ⟨operator, left, right, rfl, short, result⟩ | ⟨_, result⟩
    · rw [result, ← collectTerms_binaryOp]
      exact rebuild_collectTerms short h _
    · exact result

theorem normalize_idempotent (e : CoreExpr) : normalize (normalize e) = normalize e :=
  normalize_of_rightAssociated (rightAssociated_normalize e)

/-! ## Meaning -/

section meaning

variable {V W ε : Type} (rt : Runtime V W ε)

/-- `(a and b) and c` runs its operands as `a and (b and c)` does. -/
theorem andAlso_assoc (a b c : Method ε W V) :
    rt.andAlso (rt.andAlso a b) c = rt.andAlso a (rt.andAlso b c) := by
  unfold Runtime.andAlso
  rw [bind_assoc]
  apply bind_congr
  intro v
  unfold Runtime.isTrue
  cases known : rt.truth v with
  | none => rfl
  | some taken =>
    cases taken with
    | true => simp only [pure_bind, if_true]
    | false => simp only [pure_bind, Bool.false_eq_true, if_false, known]

theorem orElse_assoc (a b c : Method ε W V) :
    rt.orElse (rt.orElse a b) c = rt.orElse a (rt.orElse b c) := by
  unfold Runtime.orElse
  rw [bind_assoc]
  apply bind_congr
  intro v
  unfold Runtime.isTrue
  cases known : rt.truth v with
  | none => rfl
  | some taken =>
    cases taken with
    | true => simp only [pure_bind, if_true, known]
    | false => simp only [pure_bind, Bool.false_eq_true, if_false]

variable {operator : String}

theorem operate_assoc (short : isShortCircuit operator) (a b c : Method ε W V) :
    rt.operate operator (rt.operate operator a b) c =
      rt.operate operator a (rt.operate operator b c) := by
  unfold Runtime.operate
  by_cases conjunction : operator = "and"
  · simp only [if_pos conjunction]
    exact andAlso_assoc rt a b c
  have disjunction : operator = "or" := by
    unfold isShortCircuit at short
    simpa [conjunction] using short
  simp only [if_neg conjunction, if_pos disjunction]
  exact orElse_assoc rt a b c

theorem eval_binaryOp (operator : String) (left right : CoreExpr) (env : Env V) :
    eval rt (.binaryOp operator left right) env =
      rt.operate operator (eval rt left env) (eval rt right env) := rfl

/-- The meaning of a rebuilt chain with a first part: the operator between the meanings of the
parts. -/
theorem eval_rebuild_append (short : isShortCircuit operator)
    {front back : List CoreExpr} (nonempty : front ≠ []) (others : back ≠ []) (empty : CoreExpr)
    (env : Env V) : eval rt (rebuild operator (front ++ back) empty) env =
      rt.operate operator (eval rt (rebuild operator front empty) env)
        (eval rt (rebuild operator back empty) env) := by
  induction front with
  | nil => exact absurd rfl nonempty
  | cons term front ih =>
    by_cases last : front = []
    · subst last
      rw [singleton_append, rebuild_cons operator term others, rebuild_singleton,
        eval_binaryOp]
    · have joined : front ++ back ≠ [] := fun none => last (append_eq_nil_iff.mp none).1
      rw [cons_append, rebuild_cons operator term joined, rebuild_cons operator term last,
        eval_binaryOp, eval_binaryOp, ih last, operate_assoc rt short]

/-- Collecting and rebuilding keeps the meaning of a chain. -/
theorem eval_rebuild_collectTerms (short : isShortCircuit operator)
    (e empty : CoreExpr) (env : Env V) :
    eval rt (rebuild operator (collectTerms operator e) empty) env = eval rt e env := by
  induction e using CoreExpr.induction with
  | step e ih =>
    by_cases chain : ∃ left right, e = .binaryOp operator left right
    · obtain ⟨left, right, rfl⟩ := chain
      rw [collectTerms_binaryOp,
        eval_rebuild_append rt short (collectTerms_ne_nil operator left)
          (collectTerms_ne_nil operator right),
        ih left mem_cons_self, ih right (mem_cons_of_mem _ mem_cons_self),
        eval_binaryOp]
    · rw [collectTerms_of_ne fun a b same => chain ⟨a, b, same⟩, rebuild_singleton]

theorem same_reassociate (e : CoreExpr) : Same rt (reassociate e) e := by
  intro env
  rcases reassociate_cases e with ⟨operator, left, right, rfl, short, result⟩ | ⟨_, result⟩
  · rw [result, eval_rebuild_append rt short (collectTerms_ne_nil operator left)
        (collectTerms_ne_nil operator right),
      eval_rebuild_collectTerms rt short, eval_rebuild_collectTerms rt short, eval_binaryOp]
  · rw [result]

/-- The normalized expression has the values, failures and effects of the original. -/
theorem same_normalize (e : CoreExpr) : Same rt (normalize e) e := by
  induction e using CoreExpr.induction with
  | step e ih =>
    intro env
    rw [normalize_eq, same_reassociate rt, eval_mapChildren ih]

end meaning

/-! ## The main results -/

/-- In every runtime and environment the normalized expression has the value or failure of the
original, from the same effects in the same order; a second normalization changes nothing, and
every chain of `and` or `or` in the result is a right spine. -/
theorem normalize_preserves (e : CoreExpr) : (∀ (V W ε : Type) (rt : Runtime V W ε) (env : Env V),
      eval rt (normalize e) env = eval rt e env) ∧
    normalize (normalize e) = normalize e ∧ RightAssociated (normalize e) :=
  ⟨fun _ _ _ rt env => same_normalize rt e env, normalize_idempotent e, rightAssociated_normalize e⟩

end Terlan.NativeIr
