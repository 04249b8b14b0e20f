/-
  Executions of module callables: which subexpressions an expression evaluates and with which
  local function values, which callable a call really enters, and runs as sequences of steps
  over a stack of pending work.

  The order of evaluation, the branches taken and the number of iterations of a comprehension
  are left open: a step may schedule any of the work it makes possible, any number of times.
-/
import Terlan.Purity.Traversal

namespace Terlan.Purity

open Terlan.Syntax

/-! ## Scope -/

/-- Local names that hold a function value after patterns are matched. Whether a name the
patterns bind holds one depends on the value that is matched. -/
def Binds (patterns : List SyntaxPatternOutput) (locals after : Set String) : Prop :=
  ∀ name, name ∉ patterns.flatMap SyntaxPatternOutput.names → (name ∈ after ↔ name ∈ locals)

/-- A pipe into a call: the left operand becomes the first argument. -/
def pipeCall (e : SyntaxExprOutput) : Option (SyntaxExprOutput × SyntaxExprOutput) :=
  if e.kind = .binaryOp ∧ e.operator = some "|>" then
    match e.children with
    | [left, right] => if right.kind = .call then some (left, right) else none
    | _ => none
  else none

/-- Evaluating an expression may evaluate a subexpression with the locals on the right. -/
inductive Evaluates : Set String → SyntaxExprOutput → Set String → SyntaxExprOutput → Prop
  | child {locals : Set String} {e c : SyntaxExprOutput} : e.kind ≠ .letIn →
      e.kind ≠ .listComprehension → pipeCall e = none → c ∈ e.children → Evaluates locals e locals c
  | pipeLeft {locals : Set String} {e left right : SyntaxExprOutput} :
      pipeCall e = some (left, right) → Evaluates locals e locals left
  | pipeRight {locals : Set String} {e left right c : SyntaxExprOutput} :
      pipeCall e = some (left, right) → c ∈ right.children → Evaluates locals e locals c
  /-- Value of the binding at an index, after the bindings before it; or the body, after all. -/
  | letChild {locals after : Set String} {e c : SyntaxExprOutput} {index : Nat} : e.kind = .letIn →
      e.children[index]? = some c → Binds (e.patterns.take index) locals after → Evaluates locals e after c
  | letGuard {locals after : Set String} {e c : SyntaxExprOutput} {index : Nat} : e.kind = .letIn →
      e.letGuards[index]? = some (some c) → Binds (e.patterns.take (index + 1)) locals after →
      Evaluates locals e after c
  | yielded {locals after : Set String} {e c : SyntaxExprOutput} : e.kind = .listComprehension →
      e.children[0]? = some c → Binds e.patterns locals after → Evaluates locals e after c
  /-- Source of the generator at an index, or a guard after all of them. -/
  | source {locals after : Set String} {e c : SyntaxExprOutput} {index : Nat} :
      e.kind = .listComprehension → e.children[index + 1]? = some c →
      Binds (e.patterns.take index) locals after → Evaluates locals e after c
  | field {locals : Set String} {e : SyntaxExprOutput} {field : SyntaxExprFieldOutput SyntaxExprOutput} :
      field ∈ e.fields → Evaluates locals e locals field.value
  | clause {locals after : Set String} {e c : SyntaxExprOutput} {clause : SyntaxClauseOutput SyntaxExprOutput} :
      clause ∈ e.clauses ∨ clause ∈ e.catchClauses → c ∈ clause.parts →
      Binds clause.patterns locals after → Evaluates locals e after c
  | after {locals : Set String} {e c : SyntaxExprOutput} {after : SyntaxTryAfterOutput SyntaxExprOutput} :
      e.tryAfter = some after → c ∈ after.parts → Evaluates locals e locals c

/-! ## Calls -/

/-- Name of the callee of a call by a plain name. -/
def calleeName (call : SyntaxExprOutput) : Option String :=
  if call.remote.isSome then none
  else
    match call.children with
    | [] => none
    | callee :: _ => if callee.kind ≠ .var then none else callee.text

/-- How many arguments of a callable may be left to defaults. -/
def defaultedParams (declaration : SyntaxDeclarationOutput) : Nat :=
  match declaration.payload with
  | .function _ params _ => params.countP (·.default.isSome)
  | .method _ _ params _ => params.countP (·.default.isSome)
  | _ => 0

section calls

/- Names and arities of calls that leave the module before its callables are looked at:
selected imports and compiler built-ins. -/
variable (external : CallableIdentity → Prop) (module : SyntaxModuleOutput)

/-- A declared callable that a call with fewer arguments reaches through its defaults. -/
def Defaulted (name : String) (arity : Nat) (identity : CallableIdentity) : Prop :=
  ∃ declaration ∈ module.declarations,
    syntaxDeclarationCallableIdentity declaration = some identity ∧ identity.1 = name ∧
      arity < identity.2 ∧ identity.2 ≤ arity + defaultedParams declaration

/-- What a call does with a number of arguments: local function values come first, then what
leaves the module, then the callables of the module. -/
inductive Calls (locals : Set String) (call : SyntaxExprOutput) (arity : Nat) : Operation → Prop
  | outside : calleeName call = none → Calls locals call arity .unproven
  | functionValue {name : String} : calleeName call = some name → name ∈ locals →
      Calls locals call arity (.functionValue name)
  | external {name : String} : calleeName call = some name → name ∉ locals → external (name, arity) →
      Calls locals call arity .unproven
  | declared {name : String} : calleeName call = some name → name ∉ locals →
      ¬ external (name, arity) → Declares module (name, arity) →
      Calls locals call arity (.call (name, arity))
  | defaulted {name : String} {identity : CallableIdentity} : calleeName call = some name →
      name ∉ locals → ¬ external (name, arity) → ¬ Declares module (name, arity) →
      Defaulted module name arity identity → Calls locals call arity (.call identity)
  | undeclared {name : String} : calleeName call = some name → name ∉ locals →
      ¬ Declares module (name, arity) → (∀ identity, ¬ Defaulted module name arity identity) →
      Calls locals call arity .unproven

/-- What evaluating an expression does itself, apart from its subexpressions. -/
inductive Operates (locals : Set String) (e : SyntaxExprOutput) : Operation → Prop
  | effect : isEffectKind e.kind = true → Operates locals e (.effect e.kind)
  | nativeValue : isNativeVar e = true → Operates locals e .nativeValue
  | call {op : Operation} : e.kind = .call → Calls external module locals e e.arity op →
      Operates locals e op
  | pipe {left right : SyntaxExprOutput} {op : Operation} : pipeCall e = some (left, right) →
      Calls external module locals right (right.arity + 1) op → Operates locals e op

end calls

section performs

/- Local function values with which the type checker lets an expression be evaluated. -/
variable (admits : Set String → SyntaxExprOutput → Prop) (external : CallableIdentity → Prop)
  (module : SyntaxModuleOutput)

/-- Operations that evaluating an expression may perform, up to the calls it makes. -/
inductive Performs : Set String → SyntaxExprOutput → Operation → Prop
  | own {locals : Set String} {e : SyntaxExprOutput} {op : Operation} :
      syntaxExpressionDefersBody e = false → Operates external module locals e op →
      Performs locals e op
  | part {locals after : Set String} {e c : SyntaxExprOutput} {op : Operation} :
      syntaxExpressionDefersBody e = false → Evaluates locals e after c → admits after c →
      Performs after c op → Performs locals e op

end performs

/-! ## Callables -/

/-- Names that the parameters of a callable bind. -/
def parameterNames (declaration : SyntaxDeclarationOutput) : List String :=
  match declaration.payload with
  | .function _ params _ => params.map (·.name)
  | .method receiver _ params _ => receiver.name :: params.map (·.name)
  | _ => []

def declarationParams (declaration : SyntaxDeclarationOutput) : List SyntaxParamOutput :=
  match declaration.payload with
  | .function _ params _ => params
  | .method _ _ params _ => params
  | _ => []

def declarationClauses (declaration : SyntaxDeclarationOutput) : List SyntaxFunctionClauseOutput :=
  match declaration.payload with
  | .function _ _ clauses => clauses
  | .method _ _ _ clauses => clauses
  | _ => []

/-- Expressions a call of a callable may evaluate, with the parameters that hold function
values. -/
inductive Entry (declaration : SyntaxDeclarationOutput) : Set String → SyntaxExprOutput → Prop
  | default {param : SyntaxParamOutput} {e : SyntaxExprOutput} :
      param ∈ declarationParams declaration → param.default = some e → Entry declaration ∅ e
  | clause {clause : SyntaxFunctionClauseOutput} {locals : Set String} {e : SyntaxExprOutput} :
      clause ∈ declarationClauses declaration → e ∈ clause.guard.toList ++ [clause.body] →
      (∀ name ∈ locals, name ∈ parameterNames declaration ++
        clause.patterns.flatMap SyntaxPatternOutput.names) →
      Entry declaration locals e

section runs

variable (coreIntrinsicIsPure : String → String → Nat → Bool)
  (admits : Set String → SyntaxExprOutput → Prop) (external : CallableIdentity → Prop)
  (module : SyntaxModuleOutput)

/-- Operations that a callable may perform itself. -/
def DeclarationPerforms (declaration : SyntaxDeclarationOutput) (op : Operation) : Prop :=
  ∃ locals e, Entry declaration locals e ∧ admits locals e ∧ Performs admits external module locals e op

/-- Work that is still to be done. -/
inductive Pending where
  | evaluate (locals : Set String) (e : SyntaxExprOutput)
  | operate (op : Operation)

/-- Work that a piece of work makes possible. A callable that is asserted to be pure is
trusted; one without a body to look at acts on its own. -/
inductive Unfolds : Pending → Pending → Prop
  | own {locals : Set String} {e : SyntaxExprOutput} {op : Operation} :
      syntaxExpressionDefersBody e = false → Operates external module locals e op →
      Unfolds (.evaluate locals e) (.operate op)
  | part {locals after : Set String} {e c : SyntaxExprOutput} :
      syntaxExpressionDefersBody e = false → Evaluates locals e after c → admits after c →
      Unfolds (.evaluate locals e) (.evaluate after c)
  | enter {identity : CallableIdentity} {declaration : SyntaxDeclarationOutput}
      {locals : Set String} {e : SyntaxExprOutput} :
      declaration ∈ module.declarations →
      syntaxDeclarationCallableIdentity declaration = some identity →
      isCandidate coreIntrinsicIsPure module declaration = true → Entry declaration locals e →
      admits locals e → Unfolds (.operate (.call identity)) (.evaluate locals e)
  | withoutBody {identity : CallableIdentity} {declaration : SyntaxDeclarationOutput} :
      declaration ∈ module.declarations →
      syntaxDeclarationCallableIdentity declaration = some identity →
      declarationHasPureAnnotation declaration = false →
      isCandidate coreIntrinsicIsPure module declaration = false →
      Unfolds (.operate (.call identity)) (.operate (.withoutBody identity))

/-- One step: the first piece of work is replaced by work that it makes possible, or a failure
drops work up to some point. -/
inductive Step : List Pending → Option Operation → List Pending → Prop
  | evaluate {locals : Set String} {e : SyntaxExprOutput} {next rest : List Pending} :
      (∀ item ∈ next, Unfolds coreIntrinsicIsPure admits external module (.evaluate locals e) item) →
      Step (.evaluate locals e :: rest) none (next ++ rest)
  | operate {op : Operation} {next rest : List Pending} :
      (∀ item ∈ next, Unfolds coreIntrinsicIsPure admits external module (.operate op) item) →
      Step (.operate op :: rest) (some op) (next ++ rest)
  | unwind {work : List Pending} (count : Nat) : Step work none (work.drop count)

/-- A run with the operations it executed, the latest first. -/
inductive Runs (start : List Pending) : List Operation → List Pending → Prop
  | start : Runs start [] start
  | quiet {executed : List Operation} {work after : List Pending} : Runs start executed work →
      Step coreIntrinsicIsPure admits external module work none after → Runs start executed after
  | acts {executed : List Operation} {work after : List Pending} {op : Operation} :
      Runs start executed work → Step coreIntrinsicIsPure admits external module work (some op) after →
      Runs start (op :: executed) after

/-- An operation other than the call of a callable of the module. -/
def Operation.IsEffect : Operation → Prop
  | .call _ => False
  | _ => True

/-- No execution of a callable of the set executes an effect. -/
def ExecutesNoEffect (proven : Finset CallableIdentity) : Prop :=
  ∀ identity ∈ proven, ∀ executed work,
    Runs coreIntrinsicIsPure admits external module [.operate (.call identity)] executed work →
    ∀ op ∈ executed, ¬ op.IsEffect

/-- Sets of callables of the module in which every callable is asserted to be pure, or has a
body that performs no effect and calls only members. -/
def PureSet (proven : Finset CallableIdentity) : Prop :=
  ∀ identity ∈ proven, Declares module identity ∧
    ∀ declaration ∈ module.declarations,
      syntaxDeclarationCallableIdentity declaration = some identity →
      declarationHasPureAnnotation declaration = true ∨
        isCandidate coreIntrinsicIsPure module declaration = true ∧
          ∀ op, DeclarationPerforms admits external module declaration op → Allowed proven op

end runs

end Terlan.Purity
