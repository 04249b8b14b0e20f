/-
  Removal of dead allocations. A `let` drops a binding that only allocates when nothing behind
  it reads the result.

  * `keeps_meaning`: without the dropped bindings the expression has the same value, failure and
    effects.

  The names that are live are found from the last binding to the first. Evaluation with and
  without the dropped bindings runs in two environments that agree on the live names
  (`evalBindings_kept`).
-/
import Mathlib.Data.Finset.Basic
import Terlan.CoreIr.FreeVariables
namespace Terlan.NativeIr

open Terlan.Lib Terlan.CoreIr List Function

/-! ## The analysis -/

mutual

/-- Evaluation has no effect and cannot fail. -/
def isAllocationOnlyValue : CoreExpr → Bool
  | .int _ | .float _ | .atom _ | .var _ => true
  | .constructorCall _ _ _ args => areAllocationOnlyValues args
  | .tuple items => areAllocationOnlyValues items
  | .letIn bindings body => areAllocationOnlyBindings bindings && isAllocationOnlyValue body
  | _ => false

def areAllocationOnlyValues : List CoreExpr → Bool
  | [] => true
  | e :: es => isAllocationOnlyValue e && areAllocationOnlyValues es

def areAllocationOnlyBindings : List (CoreLetBinding CoreExpr) → Bool
  | [] => true
  | binding :: bindings =>
    binding.pattern matches .var _ && isAllocationOnlyValue binding.value &&
      areAllocationOnlyBindings bindings

end

/-- The graph of constructors that may be dropped when nothing reads it. -/
def isAllocationOnlyConstructor : CoreExpr → Bool
  | .constructorCall _ _ _ args => areAllocationOnlyValues args
  | .tuple items => areAllocationOnlyValues items
  | _ => false

/-- One turn of the loop, with the names that are live behind the binding and the flags of the
bindings there. -/
def retainBinding (binding : CoreLetBinding CoreExpr) :
    Finset String × List Bool → Finset String × List Bool
  | (live, retained) =>
    match binding.pattern with
    | .var name =>
      if name ∉ live ∧ isAllocationOnlyConstructor binding.value then
        (live.erase name, false :: retained)
      else (live.erase name ∪ freeVariables binding.value, true :: retained)
    | _ => (live ∪ freeVariables binding.value, true :: retained)

/-- The loop from the last binding to the first. -/
def retainBindings (bindings : List (CoreLetBinding CoreExpr)) (live : Finset String) :
    Finset String × List Bool :=
  bindings.foldr retainBinding (live, [])

def retainedManagedBindings (bindings : List (CoreLetBinding CoreExpr)) (body : CoreExpr) :
    List Bool :=
  (retainBindings bindings (freeVariables body)).2

/-- What the lowering of a `let` goes on with. -/
def keptBindings : List (CoreLetBinding CoreExpr) → List Bool → List (CoreLetBinding CoreExpr)
  | binding :: bindings, retained :: retaineds =>
    if retained then binding :: keptBindings bindings retaineds
    else keptBindings bindings retaineds
  | _, _ => []

/-- A dropped binding leaves the live names alone; a retained one takes away at most the names
that it binds. -/
theorem retainBinding_cases (binding : CoreLetBinding CoreExpr) (live : Finset String)
    (retained : List Bool) : (∃ name, binding.pattern = .var name ∧ name ∉ live ∧
      isAllocationOnlyConstructor binding.value ∧
      retainBinding binding (live, retained) = (live, false :: retained)) ∨ ∃ before,
      retainBinding binding (live, retained) =
        (before ∪ freeVariables binding.value, true :: retained) ∧
      ∀ name ∈ live, name ∈ before ∨ name ∈ patternBoundNames binding.pattern := by
  rcases binding with ⟨pattern, value⟩
  cases pattern with
  | var name =>
    by_cases dead : name ∉ live ∧ isAllocationOnlyConstructor value
    · left
      refine ⟨name, rfl, dead.1, dead.2, (if_pos dead).trans ?_⟩
      rw [Finset.erase_eq_of_notMem dead.1]
    · right
      refine ⟨live.erase name, if_neg dead, fun other mem => ?_⟩
      by_cases same : other = name
      · exact .inr (Finset.mem_singleton.mpr same)
      · exact .inl (Finset.mem_erase.mpr ⟨same, mem⟩)
  | _ => exact .inr ⟨live, rfl, fun _ mem => .inl mem⟩

/-! ## Allocations -/

section Allocations

variable {V W ε : Type} {rt : Runtime V W ε}

/-- Constructors have become calls of their functions or plain allocations before a `let` is
lowered, so that here they only allocate. -/
structure Allocates (rt : Runtime V W ε) : Prop where
  binds : rt.BindsNames
  matchVar : ∀ name v, rt.matchPattern (.var name) v = some [(name, v)]
  literal : ∀ name ∈ literalNames, ∃ v, rt.global name = pure v
  tuple : ∀ vs, ∃ v, rt.tuple vs = pure v
  constructorCall : ∀ constructor identity typeArgs vs,
    ∃ v, rt.constructorCall constructor identity typeArgs vs = pure v

/-- The names have values. -/
def Readable (rt : Runtime V W ε) (names : Finset String) (env : Env V) : Prop :=
  ∀ name ∈ names, ∃ v, rt.readName name env = pure v

/-- The text of a float literal is one. -/
def FloatLiteral (rt : Runtime V W ε) (e : CoreExpr) : Prop :=
  ∀ text, e = .float text → ∃ v, rt.float text = pure v

variable {names more : Finset String} {env : Env V}

theorem Readable.mono (h : Readable rt more env)
    (subset : ∀ name ∈ names, name ∈ more) : Readable rt names env :=
  fun name mem => h name (subset name mem)

theorem Readable.left (h : Readable rt (names ∪ more) env) : Readable rt names env :=
  h.mono fun _ => Finset.mem_union_left _

theorem Readable.right (h : Readable rt (names ∪ more) env) : Readable rt more env :=
  h.mono fun _ => Finset.mem_union_right _

theorem bind_eq_some_or {bindings : List (String × V)} (env : Env V) (name : String) :
    (∃ v, env.bind bindings name = some v) ∨
      name ∉ bindings.map (·.1) ∧ env.bind bindings name = env name := by
  induction bindings generalizing env with
  | nil => exact .inr ⟨not_mem_nil, rfl⟩
  | cons binding bindings ih =>
    obtain bound | ⟨unbound, same⟩ := ih (Function.update env binding.1 (some binding.2))
    · exact .inl bound
    change _ = _ at same
    by_cases own : name = binding.1
    · left
      refine ⟨binding.2, same.trans ?_⟩
      rw [own, update_self]
    · right
      refine ⟨?_, same.trans (update_of_ne own _ _)⟩
      rw [map_cons, mem_cons, not_or]
      exact ⟨own, unbound⟩

variable {collect : Finset String → Finset String}

theorem Readable.bind (allocates : Allocates rt) {pattern : CorePattern} {v : V}
    {bindings : List (String × V)} (matched : rt.matchPattern pattern v = some bindings)
    (free : Scoped collect) (h : Readable rt (collect (∅ ∪ patternBoundNames pattern)) env) :
    Readable rt (collect ∅) (env.bind bindings) := by
  intro name mem
  unfold Runtime.readName
  by_cases literal : name ∈ literalNames
  · rw [if_pos literal]
    exact allocates.literal name literal
  rw [if_neg literal]
  obtain ⟨v, bound⟩ | ⟨unbound, same⟩ := @bind_eq_some_or _ bindings env name
  · exact ⟨v, by rw [bound]⟩
  rw [same]
  have outside : name ∉ patternBoundNames pattern := fun own =>
    unbound (allocates.binds pattern v bindings matched name own)
  have read := h name (free.mem_of_mem mem outside)
  rw [Runtime.readName, if_neg literal] at read
  exact read

/-- Evaluation of an expression that only allocates ends with a value. -/
def Total (rt : Runtime V W ε) (e : CoreExpr) : Prop :=
  isAllocationOnlyValue e → e.Everywhere (FloatLiteral rt) →
    ∀ env, Readable rt (freeVariables e) env → ∃ v, eval rt e env = pure v

theorem evalList_total {es : List CoreExpr} (h : ∀ e ∈ es, Total rt e)
    (only : areAllocationOnlyValues es) (floats : ∀ e ∈ es, e.Everywhere (FloatLiteral rt))
    (scope : Readable rt (collectMany es ∅) env) : ∃ vs, evalList rt es env = pure vs := by
  induction es with
  | nil => exact ⟨[], rfl⟩
  | cons e es ih =>
    obtain ⟨first, rest⟩ := forall_mem_cons.mp h
    obtain ⟨float, floats⟩ := forall_mem_cons.mp floats
    rw [areAllocationOnlyValues, Bool.and_eq_true] at only
    obtain ⟨v, run⟩ := first only.1 float env scope.left
    obtain ⟨vs, runs⟩ := ih rest only.2 floats scope.right
    exact ⟨v :: vs, by rw [evalList, run, runs, pure_bind, pure_bind]⟩

variable {bindings : List (CoreLetBinding CoreExpr)}

theorem evalBindings_total (allocates : Allocates rt)
    (h : ∀ e ∈ bindings.map CoreLetBinding.value, Total rt e)
    (only : areAllocationOnlyBindings bindings)
    (floats : ∀ e ∈ bindings.map CoreLetBinding.value, e.Everywhere (FloatLiteral rt))
    (free : Scoped collect) (scope : Readable rt (collectBindings bindings ∅ ∪
      collect (bindPatterns (bindings.map (·.pattern)) ∅)) env) :
    ∃ env', evalBindings rt bindings env = pure env' ∧ Readable rt (collect ∅) env' := by
  induction bindings generalizing env with
  | nil => exact ⟨env, rfl, scope.right⟩
  | cons binding bindings ih =>
    obtain ⟨first, rest⟩ := forall_mem_cons.mp h
    obtain ⟨float, later⟩ := forall_mem_cons.mp floats
    rcases binding with ⟨pattern, value⟩
    cases pattern with
    | var name =>
      rw [areAllocationOnlyBindings, Bool.and_eq_true, Bool.and_eq_true] at only
      obtain ⟨v, run⟩ := first only.1.2 float env scope.left.left
      have matched := allocates.matchVar name v
      have behind := Readable.bind allocates matched (free.behind bindings)
        (scope.mono fun other mem => by
          rw [Finset.mem_union] at mem ⊢
          exact mem.imp_left (Finset.mem_union_right _))
      obtain ⟨env', runs, scope'⟩ := ih rest only.2 later behind
      refine ⟨env', ?_, scope'⟩
      rw [evalBindings, run, pure_bind, Runtime.bindPattern, matched]
      exact runs
    | _ => simp [areAllocationOnlyBindings] at only

theorem eval_total (allocates : Allocates rt) (e : CoreExpr) : Total rt e := by
  induction e using CoreExpr.induction with
  | step e ih =>
    intro only floats env scope
    cases e with
    | int value => exact ⟨rt.int value, rfl⟩
    | atom name => exact ⟨rt.atom name, rfl⟩
    | float text => exact floats.here text rfl
    | var name =>
      by_cases literal : name ∈ literalNames
      · refine (allocates.literal name literal).imp fun v run => ?_
        rw [CoreIr.eval, Runtime.readName, if_pos literal, run]
      refine scope name ?_
      unfold freeVariables collectFreeVariables
      rw [if_neg (by simpa using literal)]
      exact Finset.mem_singleton_self name
    | tuple items =>
      have runs : ∃ vs, evalList rt items env = pure vs :=
        evalList_total ih only floats.nested scope
      obtain ⟨vs, runs⟩ := runs
      exact (allocates.tuple vs).imp fun v run => by rw [CoreIr.eval, runs, pure_bind, run]
    | constructorCall constructor identity typeArgs args =>
      have runs : ∃ vs, evalList rt args env = pure vs :=
        evalList_total ih only floats.nested scope
      obtain ⟨vs, runs⟩ := runs
      exact (allocates.constructorCall constructor identity typeArgs vs).imp fun v run => by
        rw [CoreIr.eval, runs, pure_bind, run]
    | letIn bindings body =>
      obtain ⟨values, bodies⟩ := forall_mem_append.mp ih
      obtain ⟨floats, float⟩ := forall_mem_append.mp floats.nested
      rw [isAllocationOnlyValue, Bool.and_eq_true] at only
      obtain ⟨env', runs, scope'⟩ :=
        evalBindings_total allocates values only.1 floats (scoped_collect body) scope
      obtain ⟨v, run⟩ := forall_mem_singleton.mp bodies only.2
        (forall_mem_singleton.mp float) env' scope'
      exact ⟨v, by rw [CoreIr.eval, runs, pure_bind, run]⟩
    | _ => simp [isAllocationOnlyValue] at only

theorem isAllocationOnlyValue_of_constructor {e : CoreExpr} (h : isAllocationOnlyConstructor e) :
    isAllocationOnlyValue e := by
  cases e with
  | tuple | constructorCall => exact h
  | _ => simp [isAllocationOnlyConstructor] at h

/-! ## Runs with and without the dropped bindings -/

/-- The environments differ only in names that are not live. -/
theorem evalBindings_kept {α : Type} (allocates : Allocates rt) {live : Finset String}
    {next : Env V → Method ε W α} (reads : ∀ env env', Agree live env env' → next env = next env')
    (floats : ∀ e ∈ bindings.map CoreLetBinding.value, e.Everywhere (FloatLiteral rt))
    (free : Scoped collect) {env env' : Env V}
    (agree : Agree (retainBindings bindings live).1 env env')
    (scope : Readable rt (collectBindings bindings ∅ ∪
      collect (bindPatterns (bindings.map (·.pattern)) ∅)) env) :
    evalBindings rt bindings env >>= next =
      evalBindings rt (keptBindings bindings (retainBindings bindings live).2) env' >>= next := by
  induction bindings generalizing env env' with
  | nil => exact reads env env' agree
  | cons binding bindings ih =>
    obtain ⟨float, floats⟩ := forall_mem_cons.mp floats
    have behind {v : V} {found : List (String × V)}
        (matched : rt.matchPattern binding.pattern v = some found) :=
      Readable.bind allocates matched (free.behind bindings)
        (scope.mono fun other mem => by
          rw [Finset.mem_union] at mem ⊢
          exact mem.imp_left (Finset.mem_union_right _))
    rw [evalBindings, bind_assoc]
    change Agree (retainBinding binding (retainBindings bindings live)).1 env env' at agree
    change _ = evalBindings rt (keptBindings (binding :: bindings)
      (retainBinding binding (retainBindings bindings live)).2) env' >>= next
    obtain ⟨name, pattern, dead, only, step⟩ | ⟨before, step, covered⟩ :=
      retainBinding_cases binding (retainBindings bindings live).1 (retainBindings bindings live).2
    · -- dropped: the value is made for nothing, and no live name changes
      rw [step] at agree ⊢
      obtain ⟨v, run⟩ := eval_total allocates binding.value
        (isAllocationOnlyValue_of_constructor only) float env scope.left.left
      have matched : rt.matchPattern binding.pattern v = some [(name, v)] := by
        rw [pattern]
        exact allocates.matchVar name v
      rw [run, pure_bind, Runtime.bindPattern, matched, pure_bind]
      refine ih floats (fun other mem => ?_) (behind matched)
      have other_ne : other ≠ name := fun same => dead (same ▸ mem)
      exact (update_of_ne other_ne _ _).trans (agree other mem)
    · -- retained: both runs bind what the value gives
      rw [step] at agree ⊢
      change _ = evalBindings rt (binding :: keptBindings bindings _) env' >>= next
      rw [evalBindings, bind_assoc,
        eval_agree allocates.binds binding.value env env' agree.right]
      refine bind_congr fun v => ?_
      unfold Runtime.bindPattern
      cases matched : rt.matchPattern binding.pattern v with
      | none => rfl
      | some found =>
        rw [pure_bind, pure_bind]
        refine ih floats (fun other mem => bind_same ?_) (behind matched)
        obtain outside | own := covered other mem
        · exact .inr (agree.left other outside)
        · exact .inl (allocates.binds binding.pattern v found matched other own)

/-! ## What is kept -/

/-- What the kept bindings and the body read is live. -/
theorem live_of_read {body : CoreExpr} {name : String} (read : name ∈ freeVariables
      (.letIn (keptBindings bindings (retainedManagedBindings bindings body)) body)) :
    name ∈ (retainBindings bindings (freeVariables body)).1 := by
  unfold retainedManagedBindings at read
  induction bindings with
  | nil => exact (Finset.mem_union.mp read).resolve_left (Finset.notMem_empty name)
  | cons binding bindings ih =>
    change name ∈ freeVariables (.letIn (keptBindings (binding :: bindings)
      (retainBinding binding (retainBindings bindings (freeVariables body))).2) body) at read
    change name ∈ (retainBinding binding (retainBindings bindings (freeVariables body))).1
    obtain ⟨other, pattern, dead, only, step⟩ | ⟨before, step, covered⟩ :=
      retainBinding_cases binding (retainBindings bindings (freeVariables body)).1
        (retainBindings bindings (freeVariables body)).2
    · rw [step] at read ⊢
      exact ih read
    rw [step] at read ⊢
    change name ∈ (freeVariables binding.value ∪ collectBindings _ (∅ ∪ _)) ∪
      collectFreeVariables body (bindPatterns _ (∅ ∪ _)) at read
    rw [Finset.union_assoc, Finset.mem_union] at read
    rw [Finset.mem_union]
    obtain own | later := read
    · exact .inr own
    · rw [(scoped_collect body).behind _ (∅ ∪ _) name, Finset.empty_union] at later
      exact .inl ((covered name (ih later.1)).resolve_right later.2)

/-- The flags of later bindings do not depend on earlier ones. -/
theorem drop_retained (before after : List (CoreLetBinding CoreExpr)) (body : CoreExpr) :
    (retainedManagedBindings (before ++ after) body).drop before.length =
      retainedManagedBindings after body := by
  unfold retainedManagedBindings
  induction before with
  | nil => rfl
  | cons binding before ih =>
    change List.drop _ (retainBinding binding
      (retainBindings (before ++ after) (freeVariables body))).2 = _
    obtain ⟨_, _, _, _, step⟩ | ⟨_, step, _⟩ :=
      retainBinding_cases binding (retainBindings (before ++ after) (freeVariables body)).1
        (retainBindings (before ++ after) (freeVariables body)).2
    all_goals
      rw [step]
      exact ih

theorem retained_of_read {before after : List (CoreLetBinding CoreExpr)}
    {binding : CoreLetBinding CoreExpr} {body : CoreExpr} {name : String}
    (bound : name ∈ patternBoundNames binding.pattern) (read : name ∈ freeVariables
      (.letIn (keptBindings after (retainedManagedBindings after body)) body)) :
    (retainedManagedBindings (before ++ binding :: after) body)[before.length]? = some true := by
  have live := live_of_read read
  rw [← Nat.add_zero before.length, ← getElem?_drop, drop_retained]
  change (retainBinding binding (retainBindings after (freeVariables body))).2[0]? = some true
  obtain ⟨other, pattern, dead, only, step⟩ | ⟨_, step, _⟩ :=
    retainBinding_cases binding (retainBindings after (freeVariables body)).1
      (retainBindings after (freeVariables body)).2
  · rw [pattern] at bound
    exact absurd (Finset.mem_singleton.mp bound ▸ live) dead
  · rw [step]
    rfl

/-- Without the bindings that are not retained, a `let` has the same value, failure and effects,
and a binding is retained when the body or a later binding that stays reads a name of it. -/
theorem keeps_meaning (allocates : Allocates rt) (bindings : List (CoreLetBinding CoreExpr))
    (body : CoreExpr) (env : Env V)
    (floats : ∀ binding ∈ bindings, binding.value.Everywhere (FloatLiteral rt))
    (scope : Readable rt (freeVariables (.letIn bindings body)) env) :
    eval rt (.letIn (keptBindings bindings (retainedManagedBindings bindings body)) body) env =
        eval rt (.letIn bindings body) env ∧
      ∀ before binding after, bindings = before ++ binding :: after →
        ∀ name ∈ patternBoundNames binding.pattern, name ∈ freeVariables (.letIn (keptBindings after
            ((retainedManagedBindings bindings body).drop (before.length + 1))) body) →
          (retainedManagedBindings bindings body)[before.length]? = some true := by
  refine ⟨?_, ?_⟩
  · rw [CoreIr.eval, CoreIr.eval]
    refine (evalBindings_kept allocates (fun env env' => eval_agree allocates.binds body env env')
      (fun e mem => ?_) (scoped_collect body) (fun name _ => rfl) scope).symm
    obtain ⟨binding, member, rfl⟩ := mem_map.mp mem
    exact floats binding member
  · rintro before binding after rfl name bound read
    have flags := drop_retained (before ++ [binding]) after body
    rw [append_assoc, length_append] at flags
    rw [show before.length + 1 = before.length + [binding].length from rfl] at read
    rw [singleton_append] at flags
    rw [flags] at read
    exact retained_of_read bound read

end Allocations

/-! ## A chain with a name bound twice -/

inductive Graph
  | int (value : Int64)
  | atom (name : String)
  | node (name : String) (args : List Graph)

/-- Integers, atoms and what is allocated over them. -/
def graphRuntime : Runtime Graph Unit String where
  int := .int
  float _ := throw "float"
  binary text := pure (.node text [])
  atom := .atom
  global name := if name ∈ literalNames then pure (.atom name) else throw name
  tuple vs := pure (.node "tuple" vs)
  list vs := pure (.node "list" vs)
  cons head tail := pure (.node "cons" [head, tail])
  array vs := pure (.node "array" vs)
  index _ _ := throw "index"
  elements _ := throw "elements"
  collect _ vs := pure (.node "list" vs)
  map fields := pure (.node "map" (fields.map (·.value)))
  recordConstruct name fields := pure (.node name (fields.map (·.value)))
  fieldAccess _ field := throw field
  recordAccess _ _ field := throw field
  recordUpdate _ name _ := throw name
  templateInstantiate name fields := pure (.node name (fields.map (·.value)))
  constructorChain base _ _ vs record := pure (.node base (record :: vs))
  remoteFunRef _ function _ := pure (.node function [])
  remoteCall _ function _ _ := throw function
  constructorCall constructor _ _ vs := pure (.node constructor vs)
  call function _ _ := throw function
  mutableReceiverCall _ method _ _ := throw method
  apply _ _ := throw "apply"
  cast v _ := pure v
  intrinsic _ _ := throw "intrinsic"
  sqlQuery _ _ := throw "query"
  protect body _ _ _ := body
  closure _ _ := .node "closure" []
  unaryOp operator _ := throw operator
  binaryOp operator _ _ := throw operator
  truth
    | .atom "true" => some true
    | .atom "false" => some false
    | _ => none
  matchPattern
    | .var name, v => some [(name, v)]
    | .wildcard, _ => some []
    | _, _ => none
  notBoolean _ := "not a boolean"
  noMatch _ := "no match"
  noClause := "no clause"
  badArity := "bad arity"

theorem allocates_graphRuntime : Allocates graphRuntime where
  binds pattern v bindings matched name bound := by
    cases pattern with
    | var own =>
      cases matched
      exact bound
    | wildcard => exact absurd bound (Finset.notMem_empty name)
    | _ => cases matched
  matchVar _ _ := rfl
  literal name literal := ⟨.atom name, if_pos literal⟩
  tuple vs := ⟨.node "tuple" vs, rfl⟩
  constructorCall constructor _ _ vs := ⟨.node constructor vs, rfl⟩

/-- `x = Box(p); y = (x, x); x = Box(7); (x, p)`: the second `x` hides the first one, whose only
reader is dropped. -/
def hiddenBox : List (CoreLetBinding CoreExpr) :=
  [⟨.var "x", .constructorCall "Box" none [] [.var "p"]⟩,
    ⟨.var "y", .tuple [.var "x", .var "x"]⟩,
    ⟨.var "x", .constructorCall "Box" none [] [.int 7]⟩]

theorem float_free_hiddenBox (binding : CoreLetBinding CoreExpr) (mem : binding ∈ hiddenBox) :
    binding.value.Everywhere (FloatLiteral graphRuntime) := by
  have leaf {e : CoreExpr} (none : e.children = []) (own : FloatLiteral graphRuntime e) :
      e.Everywhere (FloatLiteral graphRuntime) :=
    .mk own (by simp only [none, not_mem_nil, false_implies, implies_true])
  have name (text : String) : (CoreExpr.var text).Everywhere (FloatLiteral graphRuntime) :=
    leaf rfl fun _ h => by cases h
  have seven : (CoreExpr.int 7).Everywhere (FloatLiteral graphRuntime) :=
    leaf rfl fun _ h => by cases h
  simp only [hiddenBox, mem_cons, not_mem_nil, or_false] at mem
  obtain rfl | rfl | rfl := mem
  · exact .mk (fun _ h => by cases h) (forall_mem_singleton.mpr (name "p"))
  · exact .mk (fun _ h => by cases h)
      (forall_mem_cons.mpr ⟨name "x", forall_mem_singleton.mpr (name "x")⟩)
  · exact .mk (fun _ h => by cases h) (forall_mem_singleton.mpr seven)

theorem keeps_meaning_hiddenBox :
    retainedManagedBindings hiddenBox (.tuple [.var "x", .var "p"]) = [false, false, true] ∧
      eval graphRuntime (.letIn (hiddenBox.drop 2) (.tuple [.var "x", .var "p"]))
          (Function.update (fun _ => none) "p" (some (.int 1))) =
        eval graphRuntime (.letIn hiddenBox (.tuple [.var "x", .var "p"]))
          (Function.update (fun _ => none) "p" (some (.int 1))) := by
  have flags : retainedManagedBindings hiddenBox (.tuple [.var "x", .var "p"]) =
      [false, false, true] := by decide
  have free : freeVariables (.letIn hiddenBox (.tuple [.var "x", .var "p"])) = {"p"} := by decide
  refine ⟨flags, ?_⟩
  have same := (keeps_meaning allocates_graphRuntime hiddenBox (.tuple [.var "x", .var "p"])
    (Function.update (fun _ => none) "p" (some (.int 1))) float_free_hiddenBox
    (fun name mem => by
      rw [free, Finset.mem_singleton] at mem
      subst mem
      exact ⟨.int 1, rfl⟩)).1
  rw [flags] at same
  exact same

end Terlan.NativeIr
