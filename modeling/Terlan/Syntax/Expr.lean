/-
  Syntax output of the parser: patterns, expressions and declarations as the passes before
  type checking read them, with the subexpressions of an expression as a list and the
  induction over them.

  Source spans and documentation are left out. Of the HTML nodes of a block
  the expressions inside them are kept, in source order.
-/
import Mathlib.Data.List.Basic

namespace Terlan.Syntax

open List

/-! ## Patterns -/

inductive SyntaxPatternKind where
  | wildcard | var | int | float | string | stringPattern | stringCapture | atom | tuple | aliasOf
  | list | listCons | constructor | map | mapField | ignore | placeholder | record | binaryLayout
deriving DecidableEq

structure SyntaxPatternFieldOutput (π : Type) where
  key : String
  required : Bool
  value : π

inductive SyntaxPatternOutput where
  | node (kind : SyntaxPatternKind) (arity : Nat) (text : Option String)
      (children : List SyntaxPatternOutput)
      (fields : List (SyntaxPatternFieldOutput SyntaxPatternOutput))

/-- Kinds of pattern whose text is a name that the pattern binds. -/
def SyntaxPatternKind.binds : SyntaxPatternKind → Bool
  | .var | .aliasOf | .stringCapture => true
  | _ => false

mutual

/-- Names that a pattern binds. -/
def SyntaxPatternOutput.names : SyntaxPatternOutput → List String
  | .node kind _ text children fields =>
    (if kind.binds then text.toList else []) ++ childNames children ++ fieldNames fields

def SyntaxPatternOutput.childNames : List SyntaxPatternOutput → List String
  | [] => []
  | child :: children => child.names ++ childNames children

def SyntaxPatternOutput.fieldNames :
    List (SyntaxPatternFieldOutput SyntaxPatternOutput) → List String
  | [] => []
  | ⟨_, _, value⟩ :: fields => value.names ++ fieldNames fields

end

/-! ## Expressions -/

inductive SyntaxExprKind where
  | int | float | atom | binary | var | tuple | list | listCons | array | index | indexAssign | map
  | listComprehension | letIn | call | caseOf | tryOf | ifOf | funOf | functionCall | remoteFunRef
  | macroCall | rawMacro | htmlBlock | recordAccess | fieldAccess | recordUpdate | recordConstruct
  | binaryLayout | templateInstantiate | constructorChain | unaryOp | cast | binaryOp | quote
  | unquote | sequence
deriving DecidableEq

/-- What an expression carries beside its subexpressions. -/
structure SyntaxExprHead where
  kind : SyntaxExprKind
  arity : Nat
  text : Option String
  raw : Option String
  operator : Option String
  remote : Option String
  patterns : List SyntaxPatternOutput
  /-- Names of call arguments, where they have one. -/
  argNames : List (Option String)
  /-- Texts of explicit type arguments. -/
  typeArgs : List String

structure SyntaxExprFieldOutput (ε : Type) where
  key : String
  required : Bool
  value : ε

structure SyntaxClauseOutput (ε : Type) where
  patterns : List SyntaxPatternOutput
  guard : Option ε
  body : ε

structure SyntaxTryAfterOutput (ε : Type) where
  trigger : ε
  body : ε

inductive SyntaxExprOutput where
  | node (head : SyntaxExprHead) (children : List SyntaxExprOutput)
      (letGuards : List (Option SyntaxExprOutput))
      (fields : List (SyntaxExprFieldOutput SyntaxExprOutput))
      (clauses catchClauses : List (SyntaxClauseOutput SyntaxExprOutput))
      (tryAfter : Option (SyntaxTryAfterOutput SyntaxExprOutput))
      (htmlExprs : List SyntaxExprOutput)

namespace SyntaxExprOutput

def head : SyntaxExprOutput → SyntaxExprHead
  | .node head _ _ _ _ _ _ _ => head

def kind (expr : SyntaxExprOutput) : SyntaxExprKind := expr.head.kind

def arity (expr : SyntaxExprOutput) : Nat := expr.head.arity

def text (expr : SyntaxExprOutput) : Option String := expr.head.text

def operator (expr : SyntaxExprOutput) : Option String := expr.head.operator

def remote (expr : SyntaxExprOutput) : Option String := expr.head.remote

def patterns (expr : SyntaxExprOutput) : List SyntaxPatternOutput := expr.head.patterns

def argNames (expr : SyntaxExprOutput) : List (Option String) := expr.head.argNames

def children : SyntaxExprOutput → List SyntaxExprOutput
  | .node _ children _ _ _ _ _ _ => children

def letGuards : SyntaxExprOutput → List (Option SyntaxExprOutput)
  | .node _ _ letGuards _ _ _ _ _ => letGuards

def fields : SyntaxExprOutput → List (SyntaxExprFieldOutput SyntaxExprOutput)
  | .node _ _ _ fields _ _ _ _ => fields

def clauses : SyntaxExprOutput → List (SyntaxClauseOutput SyntaxExprOutput)
  | .node _ _ _ _ clauses _ _ _ => clauses

def catchClauses : SyntaxExprOutput → List (SyntaxClauseOutput SyntaxExprOutput)
  | .node _ _ _ _ _ catchClauses _ _ => catchClauses

def tryAfter : SyntaxExprOutput → Option (SyntaxTryAfterOutput SyntaxExprOutput)
  | .node _ _ _ _ _ _ tryAfter _ => tryAfter

def htmlExprs : SyntaxExprOutput → List SyntaxExprOutput
  | .node _ _ _ _ _ _ _ htmlExprs => htmlExprs

end SyntaxExprOutput

def SyntaxClauseOutput.parts (clause : SyntaxClauseOutput SyntaxExprOutput) :
    List SyntaxExprOutput :=
  clause.guard.toList ++ [clause.body]

def SyntaxTryAfterOutput.parts (after : SyntaxTryAfterOutput SyntaxExprOutput) :
    List SyntaxExprOutput :=
  [after.trigger, after.body]

/-- Immediate subexpressions, the guards of let bindings among them. -/
def SyntaxExprOutput.parts : SyntaxExprOutput → List SyntaxExprOutput
  | .node _ children letGuards fields clauses catchClauses tryAfter htmlExprs =>
    children ++ letGuards.flatMap Option.toList ++ fields.map SyntaxExprFieldOutput.value ++
      clauses.flatMap SyntaxClauseOutput.parts ++ catchClauses.flatMap SyntaxClauseOutput.parts ++
      tryAfter.toList.flatMap SyntaxTryAfterOutput.parts ++ htmlExprs

/-- Induction over expressions: what holds of an expression when it holds of its immediate
subexpressions holds of every expression. -/
theorem SyntaxExprOutput.induction {P : SyntaxExprOutput → Prop}
    (step : ∀ e : SyntaxExprOutput, (∀ c ∈ e.parts, P c) → P e) (e : SyntaxExprOutput) : P e :=
  @SyntaxExprOutput.rec P (fun items => ∀ c ∈ items, P c)
    (fun guards => ∀ c ∈ guards.flatMap Option.toList, P c)
    (fun fields => ∀ c ∈ fields.map SyntaxExprFieldOutput.value, P c)
    (fun clauses => ∀ c ∈ clauses.flatMap SyntaxClauseOutput.parts, P c)
    (fun after => ∀ c ∈ after.toList.flatMap SyntaxTryAfterOutput.parts, P c)
    (fun guard => ∀ c ∈ guard.toList, P c) (fun field => P field.value)
    (fun clause => ∀ c ∈ clause.parts, P c) (fun after => ∀ c ∈ after.parts, P c)
    (fun head children letGuards fields clauses catchClauses tryAfter htmlExprs h g f c k a m =>
      step (.node head children letGuards fields clauses catchClauses tryAfter htmlExprs)
        (forall_mem_append.mpr ⟨forall_mem_append.mpr ⟨forall_mem_append.mpr
          ⟨forall_mem_append.mpr ⟨forall_mem_append.mpr ⟨forall_mem_append.mpr
            ⟨h, g⟩, f⟩, c⟩, k⟩, a⟩, m⟩))
    (forall_mem_nil P) (fun _ _ head tail => forall_mem_cons.mpr ⟨head, tail⟩)
    (forall_mem_nil P) (fun _ _ head tail => forall_mem_append.mpr ⟨head, tail⟩)
    (forall_mem_nil P) (fun _ _ head tail => forall_mem_cons.mpr ⟨head, tail⟩)
    (forall_mem_nil P) (fun _ _ head tail => forall_mem_append.mpr ⟨head, tail⟩)
    (forall_mem_nil P) (fun _ h => forall_mem_append.mpr ⟨h, forall_mem_nil P⟩)
    (forall_mem_nil P) (fun _ h => forall_mem_singleton.mpr h)
    (fun _ _ _ v => v)
    (fun _ _ _ g b => forall_mem_append.mpr ⟨g, forall_mem_singleton.mpr b⟩)
    (fun _ _ t b => forall_mem_cons.mpr ⟨t, forall_mem_singleton.mpr b⟩) e

/-! ## Declarations -/

structure SyntaxParamOutput where
  name : String
  default : Option SyntaxExprOutput

structure SyntaxFunctionClauseOutput where
  patterns : List SyntaxPatternOutput
  guard : Option SyntaxExprOutput
  body : SyntaxExprOutput

structure SyntaxAnnotationOutput where
  path : List String

structure SyntaxConstructorClauseOutput where
  params : List SyntaxParamOutput
  body : SyntaxExprOutput

/-- Payload of a declaration; those that no pass here reads are one case. -/
inductive SyntaxDeclarationPayload where
  | constant (name : String) (value : SyntaxExprOutput)
  | constFunction (name : String) (params : List SyntaxParamOutput) (body : SyntaxExprOutput)
  | constructor (name : String) (clauses : List SyntaxConstructorClauseOutput)
  | function (name : String) (params : List SyntaxParamOutput)
      (clauses : List SyntaxFunctionClauseOutput)
  | method (receiver : SyntaxParamOutput) (name : String) (params : List SyntaxParamOutput)
      (clauses : List SyntaxFunctionClauseOutput)
  | other

structure SyntaxDeclarationOutput where
  annotations : List SyntaxAnnotationOutput
  payload : SyntaxDeclarationPayload

structure SyntaxModuleOutput where
  moduleName : String
  declarations : List SyntaxDeclarationOutput

end Terlan.Syntax
