/-
  Inference of the module callables whose bodies have no observable effect: every callable
  with a body starts as a candidate, and rounds over the declarations drop those that perform
  an effect or call something that is not proven, until a round drops none.
-/
import Terlan.Lib.Prune
import Terlan.Syntax.Expr

namespace Terlan.Purity

open Terlan.Lib
open Terlan.Syntax

/-- Callable of the module: source name and effective arity. -/
abbrev CallableIdentity := String × Nat

/-! ## Declarations -/

def declarationHasAnnotation (declaration : SyntaxDeclarationOutput) (path : List String) : Bool :=
  declaration.annotations.any fun annotation => annotation.path == path

def declarationHasPureAnnotation (declaration : SyntaxDeclarationOutput) : Bool :=
  declarationHasAnnotation declaration ["pure"]

/-- A receiver counts as one parameter. -/
def syntaxDeclarationCallableIdentity (declaration : SyntaxDeclarationOutput) :
    Option CallableIdentity :=
  match declaration.payload with
  | .function name params _ => some (name, params.length)
  | .method _ name params _ => some (name, params.length + 1)
  | _ => none

def callableHasBody (declaration : SyntaxDeclarationOutput) : Bool :=
  match declaration.payload with
  | .function _ _ clauses => !clauses.isEmpty
  | .method _ _ _ clauses => !clauses.isEmpty
  | _ => false

section intrinsic

variable (coreIntrinsicIsPure : String → String → Nat → Bool)

/-- Placeholder bodies of native and effectful compiler declarations prove nothing. -/
def compilerIntrinsicIsInferablyPure (module : SyntaxModuleOutput)
    (declaration : SyntaxDeclarationOutput) : Bool :=
  if declarationHasAnnotation declaration ["compiler", "native"] then false
  else if ! declarationHasAnnotation declaration ["compiler", "intrinsic"] then true
  else
    match syntaxDeclarationCallableIdentity declaration with
    | none => false
    | some (function, arity) => coreIntrinsicIsPure module.moduleName function arity

end intrinsic

/-! ## Expressions -/

/-- Name and arity of a call by a plain name. -/
def localSyntaxCallIdentity (expr : SyntaxExprOutput) : Option CallableIdentity :=
  if expr.kind ≠ .call ∨ expr.remote.isSome then none
  else
    match expr.children with
    | [] => none
    | callee :: _ => if callee.kind ≠ .var then none else callee.text.map fun name => (name, expr.arity)

/-- A closure value is built here; its body runs when it is called. -/
def syntaxExpressionDefersBody (expr : SyntaxExprOutput) : Bool :=
  expr.kind == .funOf

/-- Kinds of expression that act when they are evaluated. -/
def isEffectKind : SyntaxExprKind → Bool
  | .indexAssign | .functionCall | .macroCall | .rawMacro | .htmlBlock | .templateInstantiate => true
  | _ => false

def isNativeVar (expr : SyntaxExprOutput) : Bool :=
  expr.kind == .var && expr.text == some "native"

/-- The test of an expression apart from its subexpressions. -/
def headIsPureUnder (proven : Finset CallableIdentity) (expr : SyntaxExprOutput) : Bool :=
  if isEffectKind expr.kind || isNativeVar expr then false
  else if expr.kind == .call then
    match localSyntaxCallIdentity expr with
    | none => false
    | some identity => decide (identity ∈ proven)
  else true

section traversal

variable (proven : Finset CallableIdentity)

mutual

/-- Conservative proof that evaluating an expression has no observable effect. -/
def expressionIsPureUnder : SyntaxExprOutput → Bool
  | .node head children letGuards fields clauses catchClauses tryAfter htmlExprs =>
    if syntaxExpressionDefersBody
        (.node head children letGuards fields clauses catchClauses tryAfter htmlExprs) then true
    else
      headIsPureUnder proven (.node head children letGuards fields clauses catchClauses tryAfter htmlExprs) &&
        childrenArePure children && fieldsArePure fields && clausesArePure clauses &&
        clausesArePure catchClauses && afterIsPure tryAfter

def childrenArePure : List SyntaxExprOutput → Bool
  | [] => true
  | child :: children => expressionIsPureUnder child && childrenArePure children

def fieldsArePure : List (SyntaxExprFieldOutput SyntaxExprOutput) → Bool
  | [] => true
  | ⟨_, _, value⟩ :: fields => expressionIsPureUnder value && fieldsArePure fields

def clausesArePure : List (SyntaxClauseOutput SyntaxExprOutput) → Bool
  | [] => true
  | ⟨_, none, body⟩ :: clauses => expressionIsPureUnder body && clausesArePure clauses
  | ⟨_, some guard, body⟩ :: clauses =>
    expressionIsPureUnder guard && expressionIsPureUnder body && clausesArePure clauses

def afterIsPure : Option (SyntaxTryAfterOutput SyntaxExprOutput) → Bool
  | none => true
  | some ⟨trigger, body⟩ => expressionIsPureUnder trigger && expressionIsPureUnder body

end

def paramDefaultIsPure (param : SyntaxParamOutput) : Bool :=
  param.default.all (expressionIsPureUnder proven)

def clauseIsPureUnder (clause : SyntaxFunctionClauseOutput) : Bool :=
  clause.guard.all (expressionIsPureUnder proven) && expressionIsPureUnder proven clause.body

def callableIsPureUnder (declaration : SyntaxDeclarationOutput) : Bool :=
  match declaration.payload with
  | .function _ params clauses =>
    params.all (paramDefaultIsPure proven) && clauses.all (clauseIsPureUnder proven)
  | .method _ _ params clauses =>
    params.all (paramDefaultIsPure proven) && clauses.all (clauseIsPureUnder proven)
  | _ => false

end traversal

/-! ## The rounds -/

section infer

variable (coreIntrinsicIsPure : String → String → Nat → Bool) (module : SyntaxModuleOutput)

/-- Callables that are asserted to be pure. -/
def explicitCallables : Finset CallableIdentity :=
  ((module.declarations.filter declarationHasPureAnnotation).filterMap
    syntaxDeclarationCallableIdentity).toFinset

def isCandidate (declaration : SyntaxDeclarationOutput) : Bool :=
  ! declarationHasPureAnnotation declaration && callableHasBody declaration &&
    compilerIntrinsicIsInferablyPure coreIntrinsicIsPure module declaration

def candidateCallables : Finset CallableIdentity :=
  ((module.declarations.filter (isCandidate coreIntrinsicIsPure module)).filterMap
    syntaxDeclarationCallableIdentity).toFinset

/-- The callable of a declaration, when the round drops it. -/
def rejectedCallable (proven : Finset CallableIdentity) (declaration : SyntaxDeclarationOutput) :
    Option {identity // identity ∈ proven} :=
  match syntaxDeclarationCallableIdentity declaration with
  | none => none
  | some identity =>
    if rejected : identity ∈ proven ∧
        identity ∈ candidateCallables coreIntrinsicIsPure module ∧
        ¬ callableIsPureUnder proven declaration then
      some ⟨identity, rejected.1⟩
    else none

def rejectedCallables (proven : Finset CallableIdentity) : List {identity // identity ∈ proven} :=
  module.declarations.filterMap (rejectedCallable coreIntrinsicIsPure module proven)

def inferBodyAvailablePureCallables : Finset CallableIdentity :=
  prune (rejectedCallables coreIntrinsicIsPure module)
    (explicitCallables module ∪ candidateCallables coreIntrinsicIsPure module)

end infer

end Terlan.Purity
