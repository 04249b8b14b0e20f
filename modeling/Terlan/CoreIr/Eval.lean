/-
  Meaning of checked expressions. An expression is evaluated in an environment to a method of
  a world: it ends with a value or a failure and leaves the world changed, so the order of
  effects shows in the world. What values are and what the operations on them do is a
  `Runtime`; evaluation itself fixes the order of the operands, scoping, the selection of
  clauses and the short circuit of `and` and `or`.

  Calls of functions are operations of the runtime, and a closure is built from the meaning of
  its body. Since evaluation is a function of the meanings of the immediate subexpressions, a
  rewriting that keeps those keeps the whole (`eval_mapChildren`).
-/
import Terlan.CoreIr.Expr
import Terlan.Lib.Checked

namespace Terlan.CoreIr

open Terlan.Lib List

/-! ## Runtimes -/

/-- Values `V`, worlds `W` and failures `ε`, with what the operations do. -/
structure Runtime (V W ε : Type) where
  int : Int64 → V
  float : String → Method ε W V
  binary : String → Method ε W V
  atom : String → V
  /-- A name that no local binding has. -/
  global : String → Method ε W V
  tuple : List V → Method ε W V
  list : List V → Method ε W V
  cons : V → V → Method ε W V
  array : List V → Method ε W V
  index : V → V → Method ε W V
  /-- The elements that a generator runs through. -/
  elements : V → Method ε W (List V)
  /-- The result of a comprehension. -/
  collect : Option String → List V → Method ε W V
  map : List (CoreExprField V) → Method ε W V
  recordConstruct : String → List (CoreExprField V) → Method ε W V
  fieldAccess : V → String → Method ε W V
  recordAccess : V → String → String → Method ε W V
  recordUpdate : V → String → List (CoreExprField V) → Method ε W V
  templateInstantiate : String → List (CoreExprField V) → Method ε W V
  constructorChain : String → Option String → List CoreType → List V → V → Method ε W V
  remoteFunRef : String → String → Nat → Method ε W V
  remoteCall : String → String → List CoreType → List V → Method ε W V
  constructorCall : String → Option String → List CoreType → List V → Method ε W V
  call : String → List CoreType → List V → Method ε W V
  mutableReceiverCall : V → String → List V → List String → Method ε W V
  /-- Calls a function value. -/
  apply : V → List V → Method ε W V
  cast : V → CoreType → Method ε W V
  intrinsic : CoreIntrinsic → List V → Method ε W V
  sqlQuery : CoreSqlQuery → List V → Method ε W V
  /-- Runs a body, its clauses for a value, its clauses for a failure with what is to happen
  when none of them takes it, and the trigger and body of the cleanup. -/
  protect : Method ε W V → (V → Method ε W V) → (V → Method ε W V → Method ε W V) →
    Option (Method ε W V × Method ε W V) → Method ε W V
  closure : List (Option CoreType) → (List V → Method ε W V) → V
  unaryOp : String → V → Method ε W V
  /-- Every operator but `and` and `or`. -/
  binaryOp : String → V → V → Method ε W V
  truth : V → Option Bool
  matchPattern : CorePattern → V → Option (List (String × V))
  notBoolean : V → ε
  noMatch : V → ε
  noClause : ε
  badArity : ε

/-- Names that are read as literals. -/
def literalNames : List String := ["Unit", "true", "false"]

/-- The values of the local names. -/
abbrev Env (V : Type) := String → Option V

/-- Adds bindings; a later one shadows. -/
def Env.bind {V : Type} (env : Env V) (bindings : List (String × V)) : Env V :=
  bindings.foldl (fun env binding => Function.update env binding.1 (some binding.2)) env

variable {V W ε : Type}

namespace Runtime

variable (rt : Runtime V W ε)

/-- A literal name has its own value whatever is bound, a local binding goes before a global. -/
def readName (name : String) (env : Env V) : Method ε W V :=
  if name ∈ literalNames then rt.global name
  else
    match env name with
    | some v => pure v
    | none => rt.global name

/-- A condition has to be a boolean. -/
def isTrue (v : V) : Method ε W Bool :=
  match rt.truth v with
  | some b => pure b
  | none => throw (rt.notBoolean v)

/-- Takes a value apart, or fails. -/
def bindPattern (pattern : CorePattern) (v : V) (env : Env V) : Method ε W (Env V) :=
  match rt.matchPattern pattern v with
  | some bindings => pure (env.bind bindings)
  | none => throw (rt.noMatch v)

/-- Binds the parameters of a closure to its arguments. -/
def bindParams : List CorePattern → List V → Env V → Method ε W (Env V)
  | [], [], env => pure env
  | pattern :: patterns, v :: vs, env => do
    let env ← rt.bindPattern pattern v env
    bindParams patterns vs env
  | [], _ :: _, _ | _ :: _, [], _ => throw rt.badArity

/-- `left and right`: the right operand runs only when the left one is true. -/
def andAlso (left right : Method ε W V) : Method ε W V := do
  let v ← left
  if ← rt.isTrue v then right else pure v

/-- `left or right`: the right operand runs only when the left one is false. -/
def orElse (left right : Method ε W V) : Method ε W V := do
  let v ← left
  if ← rt.isTrue v then pure v else right

/-- Short circuit for `and` and `or`, and strict operands for every other operator. -/
def operate (operator : String) (left right : Method ε W V) : Method ε W V :=
  if operator = "and" then rt.andAlso left right
  else if operator = "or" then rt.orElse left right
  else do
    let l ← left
    let r ← right
    rt.binaryOp operator l r

end Runtime

/-! ## Evaluation -/

mutual

def eval (rt : Runtime V W ε) : CoreExpr → Env V → Method ε W V
  | .int value, _ => pure (rt.int value)
  | .float text, _ => rt.float text
  | .binary text, _ => rt.binary text
  | .atom name, _ => pure (rt.atom name)
  | .var name, env => rt.readName name env
  | .tuple items, env => do rt.tuple (← evalList rt items env)
  | .list items, env => do rt.list (← evalList rt items env)
  | .listCons head tail, env => do rt.cons (← eval rt head env) (← eval rt tail env)
  | .array items, env => do rt.array (← evalList rt items env)
  | .index base position, env => do rt.index (← eval rt base env) (← eval rt position env)
  | .listComprehension expr generators guards lift, env => do
    rt.collect lift (← evalGenerators rt generators env fun env => do
      if ← evalGuards rt guards env then return [← eval rt expr env] else return [])
  | .letIn bindings body, env => do eval rt body (← evalBindings rt bindings env)
  | .map fields, env => do rt.map (← evalFields rt fields env)
  | .recordConstruct name fields, env => do rt.recordConstruct name (← evalFields rt fields env)
  | .fieldAccess base field, env => do rt.fieldAccess (← eval rt base env) field
  | .recordAccess base name field, env => do rt.recordAccess (← eval rt base env) name field
  | .recordUpdate base name fields, env => do
    rt.recordUpdate (← eval rt base env) name (← evalFields rt fields env)
  | .templateInstantiate name fields, env => do
    rt.templateInstantiate name (← evalFields rt fields env)
  | .constructorChain base identity typeArgs args record, env => do
    let vs ← evalList rt args env
    rt.constructorChain base identity typeArgs vs (← eval rt record env)
  | .remoteFunRef module function arity, _ => rt.remoteFunRef module function arity
  | .remoteCall module function typeArgs args, env => do
    rt.remoteCall module function typeArgs (← evalList rt args env)
  | .constructorCall constructor identity typeArgs args, env => do
    rt.constructorCall constructor identity typeArgs (← evalList rt args env)
  | .call function typeArgs args, env => do rt.call function typeArgs (← evalList rt args env)
  | .mutableReceiverCall receiver method args effects, env => do
    rt.mutableReceiverCall (← eval rt receiver env) method (← evalList rt args env) effects
  | .functionCall callee args, env => do rt.apply (← eval rt callee env) (← evalList rt args env)
  | .cast expr targetType, env => do rt.cast (← eval rt expr env) targetType
  | .intrinsic operation args, env => do rt.intrinsic operation (← evalList rt args env)
  | .sqlQuery query parameters, env => do rt.sqlQuery query (← evalList rt parameters env)
  | .caseOf scrutinee clauses, env => do
    let v ← eval rt scrutinee env
    evalClauses rt clauses env v (throw (rt.noMatch v))
  | .tryOf body ofClauses catchClauses afterClause, env =>
    rt.protect (eval rt body env)
      (fun v =>
        if ofClauses.isEmpty then pure v
        else evalClauses rt ofClauses env v (throw (rt.noMatch v)))
      (fun failure otherwise => evalClauses rt catchClauses env failure otherwise)
      (evalAfter rt afterClause env)
  | .ifOf clauses, env => evalIf rt clauses env
  | .lam params parameterTypes body, env =>
    pure (rt.closure parameterTypes fun vs => do eval rt body (← rt.bindParams params vs env))
  | .unaryOp operator operand, env => do rt.unaryOp operator (← eval rt operand env)
  | .binaryOp operator left right, env =>
    rt.operate operator (eval rt left env) (eval rt right env)

/-- Operands from left to right. -/
def evalList (rt : Runtime V W ε) : List CoreExpr → Env V → Method ε W (List V)
  | [], _ => pure []
  | e :: es, env => do
    let v ← eval rt e env
    let vs ← evalList rt es env
    return v :: vs

def evalFields (rt : Runtime V W ε) :
    List (CoreExprField CoreExpr) → Env V → Method ε W (List (CoreExprField V))
  | [], _ => pure []
  | field :: fields, env => do
    let v ← eval rt field.value env
    let vs ← evalFields rt fields env
    return { key := field.key, required := field.required, value := v } :: vs

/-- Bindings in order, each in the scope of those before it. -/
def evalBindings (rt : Runtime V W ε) :
    List (CoreLetBinding CoreExpr) → Env V → Method ε W (Env V)
  | [], env => pure env
  | binding :: bindings, env => do
    let v ← eval rt binding.value env
    evalBindings rt bindings (← rt.bindPattern binding.pattern v env)

/-- Nested loops; an element that the pattern does not match is passed over. -/
def evalGenerators (rt : Runtime V W ε) :
    List (CoreLetBinding CoreExpr) → Env V → (Env V → Method ε W (List V)) → Method ε W (List V)
  | [], env, body => body env
  | generator :: generators, env, body => do
    let source ← eval rt generator.value env
    let elements ← rt.elements source
    let parts ← elements.mapM fun v =>
      match rt.matchPattern generator.pattern v with
      | some bindings => evalGenerators rt generators (env.bind bindings) body
      | none => pure []
    return parts.flatten

/-- Whether all guards hold, tried in order. -/
def evalGuards (rt : Runtime V W ε) : List CoreExpr → Env V → Method ε W Bool
  | [], _ => pure true
  | guard :: guards, env => do
    let v ← eval rt guard env
    if ← rt.isTrue v then evalGuards rt guards env else return false

/-- The body of the first clause whose pattern and guard take the value. -/
def evalClauses (rt : Runtime V W ε) :
    List (CoreCaseClause CoreExpr) → Env V → V → Method ε W V → Method ε W V
  | [], _, _, otherwise => otherwise
  | { pattern, guard := none, body } :: clauses, env, v, otherwise =>
    match rt.matchPattern pattern v with
    | some bindings => eval rt body (env.bind bindings)
    | none => evalClauses rt clauses env v otherwise
  | { pattern, guard := some guard, body } :: clauses, env, v, otherwise =>
    match rt.matchPattern pattern v with
    | some bindings => do
      let accepted ← eval rt guard (env.bind bindings)
      if ← rt.isTrue accepted then eval rt body (env.bind bindings)
      else evalClauses rt clauses env v otherwise
    | none => evalClauses rt clauses env v otherwise

def evalIf (rt : Runtime V W ε) : List (CoreIfClause CoreExpr) → Env V → Method ε W V
  | [], _ => throw rt.noClause
  | clause :: clauses, env => do
    let v ← eval rt clause.condition env
    if ← rt.isTrue v then eval rt clause.body env else evalIf rt clauses env

def evalAfter (rt : Runtime V W ε) :
    Option (CoreTryAfter CoreExpr) → Env V → Option (Method ε W V × Method ε W V)
  | none, _ => none
  | some after, env => some (eval rt after.trigger env, eval rt after.body env)

end

/-! ## Rewriting subexpressions -/

/-- Two expressions with one meaning. -/
def Same (rt : Runtime V W ε) (a b : CoreExpr) : Prop := ∀ env, eval rt a env = eval rt b env

section congruence

variable {rt : Runtime V W ε} {f : CoreExpr → CoreExpr}

theorem evalList_map {es : List CoreExpr} (h : ∀ e ∈ es, Same rt (f e) e) (env : Env V) :
    evalList rt (es.map f) env = evalList rt es env := by
  induction es with
  | nil => rfl
  | cons e es ih =>
    obtain ⟨first, rest⟩ := forall_mem_cons.mp h
    simp only [map_cons, evalList, first env, ih rest]

theorem evalFields_map {fields : List (CoreExprField CoreExpr)}
    (h : ∀ e ∈ fields.map CoreExprField.value, Same rt (f e) e) (env : Env V) :
    evalFields rt (fields.map (·.mapValue f)) env = evalFields rt fields env := by
  induction fields with
  | nil => rfl
  | cons field fields ih =>
    obtain ⟨first, rest⟩ := forall_mem_cons.mp h
    simp only [map_cons, evalFields, CoreExprField.mapValue_key,
      CoreExprField.mapValue_required, CoreExprField.mapValue_value, first env, ih rest]

theorem evalBindings_map {bindings : List (CoreLetBinding CoreExpr)}
    (h : ∀ e ∈ bindings.map CoreLetBinding.value, Same rt (f e) e) (env : Env V) :
    evalBindings rt (bindings.map (·.mapValue f)) env = evalBindings rt bindings env := by
  induction bindings generalizing env with
  | nil => rfl
  | cons binding bindings ih =>
    obtain ⟨first, rest⟩ := forall_mem_cons.mp h
    simp only [map_cons, evalBindings, CoreLetBinding.mapValue_pattern,
      CoreLetBinding.mapValue_value, first env, ih rest]

theorem evalGenerators_map {generators : List (CoreLetBinding CoreExpr)}
    (h : ∀ e ∈ generators.map CoreLetBinding.value, Same rt (f e) e) (env : Env V)
    (body : Env V → Method ε W (List V)) :
    evalGenerators rt (generators.map (·.mapValue f)) env body =
      evalGenerators rt generators env body := by
  induction generators generalizing env with
  | nil => rfl
  | cons generator generators ih =>
    obtain ⟨first, rest⟩ := forall_mem_cons.mp h
    simp only [map_cons, evalGenerators, CoreLetBinding.mapValue_pattern,
      CoreLetBinding.mapValue_value, first env, ih rest]

theorem evalGuards_map {guards : List CoreExpr} (h : ∀ e ∈ guards, Same rt (f e) e)
    (env : Env V) : evalGuards rt (guards.map f) env = evalGuards rt guards env := by
  induction guards with
  | nil => rfl
  | cons guard guards ih =>
    obtain ⟨first, rest⟩ := forall_mem_cons.mp h
    simp only [map_cons, evalGuards, first env, ih rest]

theorem evalClauses_map {clauses : List (CoreCaseClause CoreExpr)}
    (h : ∀ e ∈ clauses.flatMap CoreCaseClause.children, Same rt (f e) e) (env : Env V) (v : V)
    (otherwise : Method ε W V) : evalClauses rt (clauses.map (·.mapExprs f)) env v otherwise =
      evalClauses rt clauses env v otherwise := by
  induction clauses with
  | nil => rfl
  | cons clause clauses ih =>
    obtain ⟨own, rest⟩ := forall_mem_append.mp h
    obtain ⟨guards, bodies⟩ := forall_mem_append.mp own
    have body := forall_mem_singleton.mp bodies
    rcases clause with ⟨pattern, _ | guard, result⟩
    · simp only [map_cons, evalClauses, CoreCaseClause.mapExprs_mk, Option.map_none,
        body _, ih rest]
    · have accepted := forall_mem_singleton.mp guards
      simp only [map_cons, evalClauses, CoreCaseClause.mapExprs_mk, Option.map_some,
        accepted _, body _, ih rest]

theorem evalIf_map {clauses : List (CoreIfClause CoreExpr)}
    (h : ∀ e ∈ clauses.flatMap CoreIfClause.children, Same rt (f e) e) (env : Env V) :
    evalIf rt (clauses.map (·.mapExprs f)) env = evalIf rt clauses env := by
  induction clauses with
  | nil => rfl
  | cons clause clauses ih =>
    obtain ⟨own, rest⟩ := forall_mem_append.mp h
    obtain ⟨condition, bodies⟩ := forall_mem_cons.mp own
    have body := forall_mem_singleton.mp bodies
    simp only [map_cons, evalIf, CoreIfClause.mapExprs_condition,
      CoreIfClause.mapExprs_body, condition env, body env, ih rest]

theorem evalAfter_map {after : Option (CoreTryAfter CoreExpr)}
    (h : ∀ e ∈ after.toList.flatMap CoreTryAfter.children, Same rt (f e) e) (env : Env V) :
    evalAfter rt (after.map (·.mapExprs f)) env = evalAfter rt after env := by
  cases after with
  | none => rfl
  | some after =>
    obtain ⟨trigger, bodies⟩ := forall_mem_cons.mp (forall_mem_append.mp h).1
    have body := forall_mem_singleton.mp bodies
    simp only [Option.map_some, evalAfter, CoreTryAfter.mapExprs, trigger env, body env]

/-- Subexpressions may be replaced by others with the same meaning. -/
theorem eval_mapChildren {e : CoreExpr} (h : ∀ c ∈ e.children, Same rt (f c) c) :
    Same rt (e.mapChildren f) e := by
  intro env
  cases e with
  | int _ | float _ | binary _ | atom _ | var _ | remoteFunRef _ _ _ => rfl
  | tuple items | list items | array items =>
    change ∀ c ∈ items, Same rt (f c) c at h
    simp only [CoreExpr.mapChildren, eval, evalList_map h]
  | remoteCall _ _ _ args | constructorCall _ _ _ args | call _ _ args | intrinsic _ args
  | sqlQuery _ args =>
    change ∀ c ∈ args, Same rt (f c) c at h
    simp only [CoreExpr.mapChildren, eval, evalList_map h]
  | map fields | recordConstruct _ fields | templateInstantiate _ fields =>
    change ∀ c ∈ fields.map CoreExprField.value, Same rt (f c) c at h
    simp only [CoreExpr.mapChildren, eval, evalFields_map h]
  | fieldAccess base _ | recordAccess base _ _ | cast base _ | unaryOp _ base =>
    simp only [CoreExpr.mapChildren, eval, forall_mem_singleton.mp h env]
  | lam params types body =>
    have same : ∀ env, eval rt (f body) env = eval rt body env := forall_mem_singleton.mp h
    simp only [CoreExpr.mapChildren, eval, same]
  | listCons a b | index a b | binaryOp _ a b =>
    obtain ⟨first, second⟩ := forall_mem_cons.mp h
    simp only [CoreExpr.mapChildren, eval, first env, forall_mem_singleton.mp second env]
  | letIn bindings body =>
    obtain ⟨values, bodies⟩ := forall_mem_append.mp h
    have same : ∀ env, eval rt (f body) env = eval rt body env :=
      forall_mem_singleton.mp bodies
    simp only [CoreExpr.mapChildren, eval, evalBindings_map values, same]
  | constructorChain _ _ _ args record =>
    obtain ⟨arguments, records⟩ := forall_mem_append.mp h
    simp only [CoreExpr.mapChildren, eval, evalList_map arguments,
      forall_mem_singleton.mp records env]
  | recordUpdate base _ fields =>
    obtain ⟨first, rest⟩ := forall_mem_cons.mp h
    simp only [CoreExpr.mapChildren, eval, first env, evalFields_map rest]
  | mutableReceiverCall base _ args _ | functionCall base args =>
    obtain ⟨first, rest⟩ := forall_mem_cons.mp h
    simp only [CoreExpr.mapChildren, eval, first env, evalList_map rest]
  | listComprehension expr generators guards lift =>
    obtain ⟨front, conditions⟩ := forall_mem_append.mp h
    obtain ⟨element, sources⟩ := forall_mem_cons.mp front
    have same : ∀ env, eval rt (f expr) env = eval rt expr env := element
    simp only [CoreExpr.mapChildren, eval, evalGenerators_map sources, evalGuards_map conditions,
      same]
  | caseOf scrutinee clauses =>
    obtain ⟨first, rest⟩ := forall_mem_cons.mp h
    simp only [CoreExpr.mapChildren, eval, first env, evalClauses_map rest]
  | tryOf body ofs catches after =>
    obtain ⟨front, cleanup⟩ := forall_mem_append.mp h
    obtain ⟨values, failures⟩ := forall_mem_append.mp front
    obtain ⟨first, rest⟩ := forall_mem_cons.mp values
    simp only [CoreExpr.mapChildren, eval, first env, evalClauses_map rest,
      evalClauses_map failures, evalAfter_map cleanup, isEmpty_map]
  | ifOf clauses =>
    change ∀ c ∈ clauses.flatMap CoreIfClause.children, Same rt (f c) c at h
    simp only [CoreExpr.mapChildren, eval, evalIf_map h]

end congruence

end Terlan.CoreIr
