/-
  Free names of checked expressions. What evaluation reads of its environment are the free
  names (`eval_agree`).

  Names that are bound on the way to a subexpression are carried along as the compiler does;
  `scoped_collect` is the rule that makes them a plain difference of sets.
-/
import Mathlib.Data.Finset.Lattice.Lemmas
import Terlan.CoreIr.Eval

namespace Terlan.CoreIr

open Terlan.Lib List Function

/-! ## Names of patterns -/

def captureNames : List CoreStringPatternSegment → Finset String
  | [] => ∅
  | .literal _ :: segments => captureNames segments
  | .capture name _ :: segments => insert name (captureNames segments)

def layoutNames : List CoreBinaryPatternField → Finset String
  | [] => ∅
  | field :: fields =>
    if field.name = "_" then layoutNames fields else insert field.name (layoutNames fields)

mutual

/-- `pattern_bound_names` -/
def patternBoundNames : CorePattern → Finset String
  | .var name => {name}
  | .aliasOf name pattern => insert name (patternBoundNames pattern)
  | .tuple items => patternsBoundNames items
  | .list items => patternsBoundNames items
  | .listCons head tail => patternBoundNames head ∪ patternBoundNames tail
  | .map fields => patternFieldsBoundNames fields
  | .record _ fields => patternFieldsBoundNames fields
  | .constructor _ _ args => patternsBoundNames args
  | .binaryLayout _ fields => layoutNames fields
  | .stringPattern segments => captureNames segments
  | .wildcard | .int _ | .float _ | .string _ | .atom _ => ∅

def patternsBoundNames : List CorePattern → Finset String
  | [] => ∅
  | pattern :: patterns => patternBoundNames pattern ∪ patternsBoundNames patterns

def patternFieldsBoundNames : List (CorePatternField CorePattern) → Finset String
  | [] => ∅
  | field :: fields => patternBoundNames field.value ∪ patternFieldsBoundNames fields

end

/-- The names in scope behind some patterns. -/
def bindPatterns : List CorePattern → Finset String → Finset String
  | [], bound => bound
  | pattern :: patterns, bound => bindPatterns patterns (bound ∪ patternBoundNames pattern)

/-! ## Free names -/

mutual

def collectFreeVariables : CoreExpr → Finset String → Finset String
  | .var name, bound => if name ∈ literalNames ∨ name ∈ bound then ∅ else {name}
  | .tuple items, bound => collectMany items bound
  | .list items, bound => collectMany items bound
  | .array items, bound => collectMany items bound
  | .listCons head tail, bound => collectFreeVariables head bound ∪ collectFreeVariables tail bound
  | .index base position, bound =>
    collectFreeVariables base bound ∪ collectFreeVariables position bound
  | .binaryOp _ left right, bound =>
    collectFreeVariables left bound ∪ collectFreeVariables right bound
  | .listComprehension expr generators guards _, bound =>
    collectBindings generators bound ∪
      (collectMany guards (bindPatterns (generators.map (·.pattern)) bound) ∪
        collectFreeVariables expr (bindPatterns (generators.map (·.pattern)) bound))
  | .map fields, bound => collectFields fields bound
  | .remoteCall _ _ _ args, bound => collectMany args bound
  | .call _ _ args, bound => collectMany args bound
  | .constructorCall _ _ _ args, bound => collectMany args bound
  | .intrinsic _ args, bound => collectMany args bound
  | .functionCall callee args, bound => collectFreeVariables callee bound ∪ collectMany args bound
  | .recordConstruct _ fields, bound => collectFields fields bound
  | .templateInstantiate _ fields, bound => collectFields fields bound
  | .recordUpdate base _ fields, bound =>
    collectFreeVariables base bound ∪ collectFields fields bound
  | .constructorChain _ _ _ args record, bound =>
    collectMany args bound ∪ collectFreeVariables record bound
  | .mutableReceiverCall receiver _ args _, bound =>
    collectFreeVariables receiver bound ∪ collectMany args bound
  | .unaryOp _ operand, bound => collectFreeVariables operand bound
  | .fieldAccess base _, bound => collectFreeVariables base bound
  | .recordAccess base _ _, bound => collectFreeVariables base bound
  | .cast expr _, bound => collectFreeVariables expr bound
  | .letIn bindings body, bound =>
    collectBindings bindings bound ∪
      collectFreeVariables body (bindPatterns (bindings.map (·.pattern)) bound)
  | .ifOf clauses, bound => collectIfClauses clauses bound
  | .caseOf scrutinee clauses, bound =>
    collectFreeVariables scrutinee bound ∪ collectCaseClauses clauses bound
  | .tryOf body ofClauses catchClauses afterClause, bound =>
    collectFreeVariables body bound ∪ (collectCaseClauses ofClauses bound ∪
      (collectCaseClauses catchClauses bound ∪ collectAfter afterClause bound))
  | .lam params _ body, bound => collectFreeVariables body (bindPatterns params bound)
  | .sqlQuery _ parameters, bound => collectMany parameters bound
  | .int _, _ | .float _, _ | .binary _, _ | .atom _, _ | .remoteFunRef _ _ _, _ => ∅

def collectMany : List CoreExpr → Finset String → Finset String
  | [], _ => ∅
  | e :: es, bound => collectFreeVariables e bound ∪ collectMany es bound

def collectFields : List (CoreExprField CoreExpr) → Finset String → Finset String
  | [], _ => ∅
  | field :: fields, bound => collectFreeVariables field.value bound ∪ collectFields fields bound

/-- The values of bindings, each in the scope of those before it. -/
def collectBindings : List (CoreLetBinding CoreExpr) → Finset String → Finset String
  | [], _ => ∅
  | binding :: bindings, bound =>
    collectFreeVariables binding.value bound ∪
      collectBindings bindings (bound ∪ patternBoundNames binding.pattern)

def collectCaseClauses : List (CoreCaseClause CoreExpr) → Finset String → Finset String
  | [], _ => ∅
  | clause :: clauses, bound =>
    collectGuard clause.guard (bound ∪ patternBoundNames clause.pattern) ∪
      (collectFreeVariables clause.body (bound ∪ patternBoundNames clause.pattern) ∪
        collectCaseClauses clauses bound)

def collectGuard : Option CoreExpr → Finset String → Finset String
  | none, _ => ∅
  | some guard, bound => collectFreeVariables guard bound

def collectIfClauses : List (CoreIfClause CoreExpr) → Finset String → Finset String
  | [], _ => ∅
  | clause :: clauses, bound =>
    collectFreeVariables clause.condition bound ∪
      (collectFreeVariables clause.body bound ∪ collectIfClauses clauses bound)

def collectAfter : Option (CoreTryAfter CoreExpr) → Finset String → Finset String
  | none, _ => ∅
  | some after, bound =>
    collectFreeVariables after.trigger bound ∪ collectFreeVariables after.body bound

end

def freeVariables (e : CoreExpr) : Finset String := collectFreeVariables e ∅

/-! ## Scopes -/

/-- Names bound outside are left out, and nothing else changes. -/
def Scoped (collect : Finset String → Finset String) : Prop :=
  ∀ bound name, name ∈ collect bound ↔ name ∈ collect ∅ ∧ name ∉ bound

section Scopes

variable {f g : Finset String → Finset String}

theorem scoped_empty : Scoped fun _ => ∅ := by
  intro bound name
  simp

theorem Scoped.union (hf : Scoped f) (hg : Scoped g) : Scoped fun bound => f bound ∪ g bound := by
  intro bound name
  rw [Finset.mem_union, Finset.mem_union, hf, hg, or_and_right]

theorem Scoped.extend (hf : Scoped f) (names : Finset String) :
    Scoped fun bound => f (bound ∪ names) := by
  intro bound name
  change name ∈ f (bound ∪ names) ↔ name ∈ f (∅ ∪ names) ∧ name ∉ bound
  rw [hf (bound ∪ names), hf (∅ ∪ names), Finset.mem_union, Finset.mem_union, and_assoc]
  simp only [Finset.notMem_empty, false_or, not_or, and_comm]

/-- A name that is read inside is bound there, or read outside. -/
theorem Scoped.mem_of_mem (hf : Scoped f) {names : Finset String} {name : String}
    (inside : name ∈ f ∅) (unbound : name ∉ names) : name ∈ f (∅ ∪ names) := by
  rw [hf, Finset.empty_union]
  exact ⟨inside, unbound⟩

theorem bindPatterns_eq (patterns : List CorePattern) (bound : Finset String) :
    bindPatterns patterns bound = bound ∪ bindPatterns patterns ∅ := by
  induction patterns generalizing bound with
  | nil => exact (Finset.union_empty bound).symm
  | cons pattern patterns ih =>
    rw [bindPatterns, bindPatterns, ih, ih (∅ ∪ _), Finset.empty_union, Finset.union_assoc]

theorem Scoped.extendAll (hf : Scoped f) (patterns : List CorePattern) :
    Scoped fun bound => f (bindPatterns patterns bound) := by
  have extended := hf.extend (bindPatterns patterns ∅)
  intro bound name
  change name ∈ f (bindPatterns patterns bound) ↔ name ∈ f (bindPatterns patterns ∅) ∧ _
  rw [bindPatterns_eq patterns bound, extended bound name]
  simp only [Finset.empty_union]

end Scopes

section Collect

theorem scoped_of_single {e : CoreExpr} (h : ∀ c ∈ [e], Scoped (collectFreeVariables c)) :
    Scoped (collectFreeVariables e) := h e mem_cons_self

theorem scoped_many {es : List CoreExpr} (h : ∀ e ∈ es, Scoped (collectFreeVariables e)) :
    Scoped (collectMany es) := by
  induction es with
  | nil => exact scoped_empty
  | cons e es ih =>
    obtain ⟨first, rest⟩ := forall_mem_cons.mp h
    exact first.union (ih rest)

theorem scoped_fields {fields : List (CoreExprField CoreExpr)}
    (h : ∀ e ∈ fields.map CoreExprField.value, Scoped (collectFreeVariables e)) :
    Scoped (collectFields fields) := by
  induction fields with
  | nil => exact scoped_empty
  | cons field fields ih =>
    obtain ⟨first, rest⟩ := forall_mem_cons.mp h
    exact first.union (ih rest)

theorem scoped_bindings {bindings : List (CoreLetBinding CoreExpr)}
    (h : ∀ e ∈ bindings.map CoreLetBinding.value, Scoped (collectFreeVariables e)) :
    Scoped (collectBindings bindings) := by
  induction bindings with
  | nil => exact scoped_empty
  | cons binding bindings ih =>
    obtain ⟨first, rest⟩ := forall_mem_cons.mp h
    exact first.union ((ih rest).extend _)

theorem scoped_guard {guard : Option CoreExpr}
    (h : ∀ e ∈ guard.toList, Scoped (collectFreeVariables e)) : Scoped (collectGuard guard) := by
  cases guard with
  | none => exact scoped_empty
  | some guard => exact scoped_of_single h

theorem scoped_clauses {clauses : List (CoreCaseClause CoreExpr)}
    (h : ∀ e ∈ clauses.flatMap CoreCaseClause.children, Scoped (collectFreeVariables e)) :
    Scoped (collectCaseClauses clauses) := by
  induction clauses with
  | nil => exact scoped_empty
  | cons clause clauses ih =>
    obtain ⟨own, rest⟩ := forall_mem_append.mp h
    obtain ⟨guards, bodies⟩ := forall_mem_append.mp own
    exact ((scoped_guard guards).extend _).union
      (((scoped_of_single bodies).extend _).union (ih rest))

theorem scoped_ifs {clauses : List (CoreIfClause CoreExpr)}
    (h : ∀ e ∈ clauses.flatMap CoreIfClause.children, Scoped (collectFreeVariables e)) :
    Scoped (collectIfClauses clauses) := by
  induction clauses with
  | nil => exact scoped_empty
  | cons clause clauses ih =>
    obtain ⟨own, rest⟩ := forall_mem_append.mp h
    obtain ⟨condition, bodies⟩ := forall_mem_cons.mp own
    exact condition.union ((scoped_of_single bodies).union (ih rest))

theorem scoped_after {after : Option (CoreTryAfter CoreExpr)}
    (h : ∀ e ∈ after.toList.flatMap CoreTryAfter.children, Scoped (collectFreeVariables e)) :
    Scoped (collectAfter after) := by
  cases after with
  | none => exact scoped_empty
  | some after =>
    obtain ⟨trigger, bodies⟩ := forall_mem_cons.mp (forall_mem_append.mp h).1
    exact trigger.union (scoped_of_single bodies)

theorem scoped_collect (e : CoreExpr) : Scoped (collectFreeVariables e) := by
  induction e using CoreExpr.induction with
  | step e ih =>
    cases e with
    | int _ | float _ | binary _ | atom _ | remoteFunRef _ _ _ => exact scoped_empty
    | var name =>
      intro bound other
      unfold collectFreeVariables
      by_cases literal : name ∈ literalNames
      · simp [literal]
      by_cases inside : name ∈ bound
      · rw [if_pos (.inr inside), if_neg (by simpa using literal)]
        simp only [Finset.notMem_empty, Finset.mem_singleton, false_iff, not_and, not_not]
        rintro rfl
        exact inside
      · rw [if_neg (by simp [inside, literal]), if_neg (by simpa using literal)]
        simp only [Finset.mem_singleton, iff_self_and]
        rintro rfl
        exact inside
    | tuple | list | array | remoteCall | constructorCall | call | intrinsic | sqlQuery =>
      exact scoped_many ih
    | map fields | recordConstruct _ fields | templateInstantiate _ fields =>
      exact scoped_fields ih
    | fieldAccess base _ | recordAccess base _ _ | cast base _ | unaryOp _ base =>
      have own : Scoped (collectFreeVariables base) := scoped_of_single ih
      exact own
    | lam params _ body => exact (scoped_of_single ih).extendAll params
    | listCons a b | index a b | binaryOp _ a b =>
      obtain ⟨first, second⟩ := forall_mem_cons.mp ih
      exact first.union (scoped_of_single second)
    | letIn bindings body =>
      obtain ⟨values, bodies⟩ := forall_mem_append.mp ih
      exact (scoped_bindings values).union
        ((scoped_of_single bodies).extendAll _)
    | constructorChain _ _ _ args record =>
      obtain ⟨arguments, records⟩ := forall_mem_append.mp ih
      exact (scoped_many arguments).union (scoped_of_single records)
    | recordUpdate base _ fields =>
      obtain ⟨first, rest⟩ := forall_mem_cons.mp ih
      exact first.union (scoped_fields rest)
    | mutableReceiverCall base _ args _ | functionCall base args =>
      obtain ⟨first, rest⟩ := forall_mem_cons.mp ih
      exact first.union (scoped_many rest)
    | listComprehension expr generators guards _ =>
      obtain ⟨front, conditions⟩ := forall_mem_append.mp ih
      obtain ⟨element, sources⟩ := forall_mem_cons.mp front
      exact (scoped_bindings sources).union
        (((scoped_many conditions).extendAll _).union (element.extendAll _))
    | caseOf scrutinee clauses =>
      obtain ⟨first, rest⟩ := forall_mem_cons.mp ih
      exact first.union (scoped_clauses rest)
    | tryOf body ofs catches after =>
      obtain ⟨front, cleanup⟩ := forall_mem_append.mp ih
      obtain ⟨values, failures⟩ := forall_mem_append.mp front
      obtain ⟨first, rest⟩ := forall_mem_cons.mp values
      exact first.union ((scoped_clauses rest).union
        ((scoped_clauses failures).union (scoped_after cleanup)))
    | ifOf clauses => exact scoped_ifs ih

theorem Scoped.behind {collect : Finset String → Finset String} (free : Scoped collect)
    (bindings : List (CoreLetBinding CoreExpr)) :
    Scoped fun bound => collectBindings bindings bound ∪
      collect (bindPatterns (bindings.map (·.pattern)) bound) :=
  (scoped_bindings fun e _ => scoped_collect e).union (free.extendAll _)

end Collect

/-! ## Evaluation reads the free names -/

variable {V W ε : Type}

/-- The environments have one value for each of the names. -/
def Agree (names : Finset String) (env env' : Env V) : Prop := ∀ name ∈ names, env name = env' name

variable {names more : Finset String} {env env' : Env V}

theorem Agree.mono (h : Agree more env env')
    (subset : ∀ name ∈ names, name ∈ more) : Agree names env env' :=
  fun name mem => h name (subset name mem)

theorem Agree.left (h : Agree (names ∪ more) env env') : Agree names env env' :=
  h.mono fun _ => Finset.mem_union_left _

theorem Agree.right (h : Agree (names ∪ more) env env') : Agree more env env' :=
  h.mono fun _ => Finset.mem_union_right _

/-- A match has a value for each name of its pattern. -/
def Runtime.BindsNames (rt : Runtime V W ε) : Prop :=
  ∀ pattern v bindings, rt.matchPattern pattern v = some bindings →
    ∀ name ∈ patternBoundNames pattern, name ∈ bindings.map (·.1)

theorem bind_same {bindings : List (String × V)} {name : String}
    (h : name ∈ bindings.map (·.1) ∨ env name = env' name) :
    env.bind bindings name = env'.bind bindings name := by
  induction bindings generalizing env env' with
  | nil => exact h.resolve_left not_mem_nil
  | cons binding bindings ih =>
    refine ih ?_
    dsimp only
    rw [map_cons, mem_cons] at h
    by_cases own : name = binding.1
    · subst own
      rw [update_self, update_self]
      exact .inr rfl
    · rw [update_of_ne own, update_of_ne own]
      exact h.imp_left fun mem => mem.resolve_left own

section Reads

variable {rt : Runtime V W ε}

/-- The expression is evaluated alike where its free names have one value. -/
def ReadsFree (rt : Runtime V W ε) (e : CoreExpr) : Prop :=
  ∀ env env', Agree (freeVariables e) env env' → eval rt e env = eval rt e env'

theorem readsFree_of_single {e : CoreExpr} (h : ∀ c ∈ [e], ReadsFree rt c) : ReadsFree rt e :=
  h e mem_cons_self

variable {env env' : Env V}

theorem evalList_agree {es : List CoreExpr} (h : ∀ e ∈ es, ReadsFree rt e)
    (agree : Agree (collectMany es ∅) env env') : evalList rt es env = evalList rt es env' := by
  induction es with
  | nil => rfl
  | cons e es ih =>
    obtain ⟨first, rest⟩ := forall_mem_cons.mp h
    rw [evalList, evalList, first env env' agree.left, ih rest agree.right]

theorem evalFields_agree {fields : List (CoreExprField CoreExpr)}
    (h : ∀ e ∈ fields.map CoreExprField.value, ReadsFree rt e)
    (agree : Agree (collectFields fields ∅) env env') :
    evalFields rt fields env = evalFields rt fields env' := by
  induction fields with
  | nil => rfl
  | cons field fields ih =>
    obtain ⟨first, rest⟩ := forall_mem_cons.mp h
    rw [evalFields, evalFields, first env env' agree.left, ih rest agree.right]

theorem evalGuards_agree {guards : List CoreExpr} (h : ∀ e ∈ guards, ReadsFree rt e)
    (agree : Agree (collectMany guards ∅) env env') :
    evalGuards rt guards env = evalGuards rt guards env' := by
  induction guards with
  | nil => rfl
  | cons guard guards ih =>
    obtain ⟨first, rest⟩ := forall_mem_cons.mp h
    rw [evalGuards, evalGuards, first env env' agree.left, ih rest agree.right]

theorem evalIf_agree {clauses : List (CoreIfClause CoreExpr)}
    (h : ∀ e ∈ clauses.flatMap CoreIfClause.children, ReadsFree rt e)
    (agree : Agree (collectIfClauses clauses ∅) env env') :
    evalIf rt clauses env = evalIf rt clauses env' := by
  induction clauses with
  | nil => rfl
  | cons clause clauses ih =>
    obtain ⟨own, rest⟩ := forall_mem_append.mp h
    obtain ⟨condition, bodies⟩ := forall_mem_cons.mp own
    rw [evalIf, evalIf, condition env env' agree.left,
      readsFree_of_single bodies env env' agree.right.left, ih rest agree.right.right]

theorem evalAfter_agree {after : Option (CoreTryAfter CoreExpr)}
    (h : ∀ e ∈ after.toList.flatMap CoreTryAfter.children, ReadsFree rt e)
    (agree : Agree (collectAfter after ∅) env env') :
    evalAfter rt after env = evalAfter rt after env' := by
  cases after with
  | none => rfl
  | some after =>
    obtain ⟨trigger, bodies⟩ := forall_mem_cons.mp (forall_mem_append.mp h).1
    rw [evalAfter, evalAfter, trigger env env' agree.left,
      readsFree_of_single bodies env env' agree.right]

variable {collect : Finset String → Finset String}

section

variable (binds : rt.BindsNames)
include binds

/-- What a pattern binds agrees, and so does what agreed before. -/
theorem bind_agree {pattern : CorePattern} {v : V}
    {bindings : List (String × V)} (matched : rt.matchPattern pattern v = some bindings)
    (free : Scoped collect) (agree : Agree (collect (∅ ∪ patternBoundNames pattern)) env env') :
    Agree (collect ∅) (env.bind bindings) (env'.bind bindings) := by
  intro name mem
  refine bind_same ?_
  by_cases own : name ∈ patternBoundNames pattern
  · exact .inl (binds pattern v bindings matched name own)
  · exact .inr (agree name (free.mem_of_mem mem own))

theorem evalClauses_agree {clauses : List (CoreCaseClause CoreExpr)}
    (h : ∀ e ∈ clauses.flatMap CoreCaseClause.children, ReadsFree rt e)
    (agree : Agree (collectCaseClauses clauses ∅) env env') (v : V) (otherwise : Method ε W V) :
    evalClauses rt clauses env v otherwise = evalClauses rt clauses env' v otherwise := by
  induction clauses with
  | nil => rfl
  | cons clause clauses ih =>
    obtain ⟨own, rest⟩ := forall_mem_append.mp h
    obtain ⟨guards, bodies⟩ := forall_mem_append.mp own
    have later := ih rest agree.right.right
    rcases clause with ⟨pattern, _ | guard, body⟩
    · rw [evalClauses, evalClauses]
      cases matched : rt.matchPattern pattern v with
      | none => exact later
      | some bindings =>
        exact readsFree_of_single bodies _ _
          (bind_agree binds matched (scoped_collect body) agree.right.left)
    · rw [evalClauses, evalClauses]
      cases matched : rt.matchPattern pattern v with
      | none => exact later
      | some bindings =>
        dsimp only
        rw [readsFree_of_single guards _ _
            (bind_agree binds matched (scoped_collect guard) agree.left),
          readsFree_of_single bodies _ _
            (bind_agree binds matched (scoped_collect body) agree.right.left), later]

theorem bind_agree_behind {binding : CoreLetBinding CoreExpr}
    {bindings : List (CoreLetBinding CoreExpr)} {v : V} {found : List (String × V)}
    (matched : rt.matchPattern binding.pattern v = some found) (free : Scoped collect)
    (agree : Agree (collectBindings (binding :: bindings) ∅ ∪
      collect (bindPatterns ((binding :: bindings).map (·.pattern)) ∅)) env env') :
    Agree (collectBindings bindings ∅ ∪ collect (bindPatterns (bindings.map (·.pattern)) ∅))
      (env.bind found) (env'.bind found) :=
  bind_agree binds matched (free.behind bindings) (agree.mono fun name mem => by
    rw [Finset.mem_union] at mem ⊢
    exact mem.imp_left (Finset.mem_union_right _))

/-- Bindings, with what is read behind them. -/
theorem evalBindings_agree {α : Type} {bindings : List (CoreLetBinding CoreExpr)}
    (h : ∀ e ∈ bindings.map CoreLetBinding.value, ReadsFree rt e) (free : Scoped collect)
    {next : Env V → Method ε W α}
    (reads : ∀ env env', Agree (collect ∅) env env' → next env = next env')
    (agree : Agree (collectBindings bindings ∅ ∪
      collect (bindPatterns (bindings.map (·.pattern)) ∅)) env env') :
    evalBindings rt bindings env >>= next = evalBindings rt bindings env' >>= next := by
  induction bindings generalizing env env' with
  | nil => exact reads env env' agree.right
  | cons binding bindings ih =>
    obtain ⟨first, rest⟩ := forall_mem_cons.mp h
    rw [evalBindings, evalBindings, first env env' agree.left.left, bind_assoc, bind_assoc]
    refine bind_congr fun v => ?_
    unfold Runtime.bindPattern
    cases matched : rt.matchPattern binding.pattern v with
    | none => rfl
    | some found =>
      rw [pure_bind, pure_bind]
      exact ih rest (bind_agree_behind binds matched free agree)

theorem bindParams_agree {α : Type} {params : List CorePattern}
    (free : Scoped collect) {next : Env V → Method ε W α}
    (reads : ∀ env env', Agree (collect ∅) env env' → next env = next env')
    (agree : Agree (collect (bindPatterns params ∅)) env env') (vs : List V) :
    rt.bindParams params vs env >>= next = rt.bindParams params vs env' >>= next := by
  induction params generalizing vs env env' with
  | nil =>
    cases vs with
    | nil => exact reads env env' agree
    | cons => rfl
  | cons pattern params ih =>
    cases vs with
    | nil => rfl
    | cons v vs =>
      rw [Runtime.bindParams, Runtime.bindParams, bind_assoc, bind_assoc]
      unfold Runtime.bindPattern
      cases matched : rt.matchPattern pattern v with
      | none => rfl
      | some found =>
        rw [pure_bind, pure_bind]
        exact ih (bind_agree binds matched (free.extendAll params) agree) vs

theorem evalGenerators_agree {generators : List (CoreLetBinding CoreExpr)}
    (h : ∀ e ∈ generators.map CoreLetBinding.value, ReadsFree rt e) (free : Scoped collect)
    {body : Env V → Method ε W (List V)}
    (reads : ∀ env env', Agree (collect ∅) env env' → body env = body env')
    (agree : Agree (collectBindings generators ∅ ∪
      collect (bindPatterns (generators.map (·.pattern)) ∅)) env env') :
    evalGenerators rt generators env body = evalGenerators rt generators env' body := by
  induction generators generalizing env env' with
  | nil => exact reads env env' agree.right
  | cons generator generators ih =>
    obtain ⟨first, rest⟩ := forall_mem_cons.mp h
    rw [evalGenerators, evalGenerators, first env env' agree.left.left]
    refine bind_congr fun source => bind_congr fun elements => ?_
    refine congrArg (fun visit : V → Method ε W (List V) =>
      elements.mapM visit >>= fun parts => pure parts.flatten) (funext fun v => ?_)
    cases matched : rt.matchPattern generator.pattern v with
    | none => rfl
    | some found => exact ih rest (bind_agree_behind binds matched free agree)

theorem eval_agree (e : CoreExpr) : ReadsFree rt e := by
  induction e using CoreExpr.induction with
  | step e ih =>
    intro env env' agree
    cases e with
    | int _ | float _ | binary _ | atom _ | remoteFunRef _ _ _ => rfl
    | var name =>
      rw [eval, eval]
      unfold Runtime.readName
      by_cases literal : name ∈ literalNames
      · rw [if_pos literal, if_pos literal]
      have read : name ∈ freeVariables (.var name) := by
        unfold freeVariables collectFreeVariables
        rw [if_neg (by simpa using literal)]
        exact Finset.mem_singleton_self name
      rw [agree name read]
    | tuple items | list items | array items =>
      have same : evalList rt items env = evalList rt items env' := evalList_agree ih agree
      rw [eval, eval, same]
    | remoteCall _ _ _ args | constructorCall _ _ _ args | call _ _ args | intrinsic _ args
    | sqlQuery _ args =>
      have same : evalList rt args env = evalList rt args env' := evalList_agree ih agree
      rw [eval, eval, same]
    | map fields | recordConstruct _ fields | templateInstantiate _ fields =>
      have same : evalFields rt fields env = evalFields rt fields env' :=
        evalFields_agree ih agree
      rw [eval, eval, same]
    | fieldAccess base _ | recordAccess base _ _ | cast base _ | unaryOp _ base =>
      have own : ReadsFree rt base := readsFree_of_single ih
      rw [eval, eval, own env env' agree]
    | lam params types body =>
      have own : ReadsFree rt body := readsFree_of_single ih
      rw [eval, eval]
      refine congrArg (fun run => pure (rt.closure types run)) ?_
      funext vs
      exact bindParams_agree binds (scoped_collect body) own agree vs
    | listCons | index | binaryOp =>
      obtain ⟨first, second⟩ := forall_mem_cons.mp ih
      rw [eval, eval, first env env' agree.left,
        readsFree_of_single second env env' agree.right]
    | letIn bindings body =>
      obtain ⟨values, bodies⟩ := forall_mem_append.mp ih
      have own : ReadsFree rt body := readsFree_of_single bodies
      rw [eval, eval]
      exact evalBindings_agree binds values (scoped_collect body) own agree
    | constructorChain _ _ _ args record =>
      obtain ⟨arguments, records⟩ := forall_mem_append.mp ih
      rw [eval, eval, evalList_agree arguments agree.left,
        readsFree_of_single records env env' agree.right]
    | recordUpdate base _ fields =>
      obtain ⟨first, rest⟩ := forall_mem_cons.mp ih
      rw [eval, eval, first env env' agree.left, evalFields_agree rest agree.right]
    | mutableReceiverCall base _ args _ | functionCall base args =>
      obtain ⟨first, rest⟩ := forall_mem_cons.mp ih
      rw [eval, eval, first env env' agree.left, evalList_agree rest agree.right]
    | listComprehension expr generators guards lift =>
      obtain ⟨front, conditions⟩ := forall_mem_append.mp ih
      obtain ⟨element, sources⟩ := forall_mem_cons.mp front
      rw [eval, eval]
      refine congrArg (fun collected => collected >>= rt.collect lift) ?_
      refine evalGenerators_agree binds sources
        ((scoped_many fun e _ => scoped_collect e).union (scoped_collect expr))
        (fun env env' agree => ?_) agree
      rw [evalGuards_agree conditions agree.left, element env env' agree.right]
    | caseOf scrutinee clauses =>
      obtain ⟨first, rest⟩ := forall_mem_cons.mp ih
      rw [eval, eval, first env env' agree.left]
      simp only [evalClauses_agree binds rest agree.right]
    | tryOf body ofs catches after =>
      obtain ⟨front, cleanup⟩ := forall_mem_append.mp ih
      obtain ⟨values, failures⟩ := forall_mem_append.mp front
      obtain ⟨first, rest⟩ := forall_mem_cons.mp values
      rw [eval, eval, first env env' agree.left,
        evalAfter_agree cleanup agree.right.right.right]
      simp only [evalClauses_agree binds rest agree.right.left,
        evalClauses_agree binds failures agree.right.right.left]
    | ifOf clauses => exact evalIf_agree ih agree

end

end Reads

end Terlan.CoreIr
