/-
  Expressions of native code and the identities of continuations in them.

  Operations that only compute a value from evaluated operands (literals, arithmetic, heap
  objects) are one form; the others carry the identities. Three traversals deal with
  identities: `rewriteContinuationIds` renames them, `continuationReferences` lists what it
  renames, and the roles of continuations are read off every node. The first two pass over the
  identity that a tail call yields under.
-/
import Mathlib.Data.List.Basic

namespace Terlan.NativeIr

open List

/-! ## Expressions -/

inductive NativeType where
  | unit
  | int
  | float
  | bool
  | atom
  | stringRef
  | bytesRef
  | binaryRef
  | managedRef (identity : List UInt8)
deriving DecidableEq

inductive NativeBinaryOperator where
  | add | subtract | multiply | divide | remainder | bitAnd | bitXor | bitOr | shiftLeft | shiftRight
  | equal | notEqual | lessThan | lessThanOrEqual | greaterThan | greaterThanOrEqual
deriving DecidableEq

inductive NativeTransitionOperation where
  | debug | identity | yield | send | sendTyped | receive | receiveTyped | spawn | timer | link | unlink
  | monitor | demonitor | resource | resourceRelease | cancellation | failure | failureTyped | scheduling
  | capability | supervision
deriving DecidableEq

/-- Operations on the values of operands. Layouts of heap objects are only compared. -/
inductive NativeOperation (δ : Type) where
  | unit
  | int (value : Int)
  | float (bits : UInt64)
  | bool (value : Bool)
  | atomLiteral (name : String)
  | managedLiteral (encoded : List UInt8)
  | managedOperation (encoded : List UInt8)
  | makeClosure (encoded : List UInt8)
  | construct (descriptor : δ) (encodedLayout : List UInt8)
  | neg
  | floatNeg
  | floatFloor
  | floatCeil
  | intToFloat
  | not
  | binary (operator : NativeBinaryOperator) (operandType : NativeType)
deriving DecidableEq

/-- What a call does when its callee parks under an identity. -/
structure NativeCallResume where
  calleeContinuationId : Nat
  calleeCaptureCount : Nat
  continuationId : Nat
  callerValueStart : Nat
deriving DecidableEq

structure NativeDynamicCallResume where
  calleeExportId : Nat
  calleeContinuationId : Nat
  calleeCaptureCount : Nat
  continuationId : Nat
deriving DecidableEq

structure NativeClause (ε : Type) where
  condition : ε
  body : ε

inductive NativeExpr (δ : Type) where
  | operation (operation : NativeOperation δ) (args : List (NativeExpr δ))
  | param (index : Nat)
  | call (function : Nat) (args : List (NativeExpr δ))
  | invokeClosure (callee : NativeExpr δ) (args : List (NativeExpr δ))
      (parameterTypes : List NativeType) (resultType : NativeType)
  | invokeClosureThen (callee : NativeExpr δ) (args : List (NativeExpr δ))
      (parameterTypes : List NativeType) (resultType : NativeType)
      (resumes : List NativeDynamicCallResume) (completionContinuationId : Nat)
      (completionFunction : Option Nat) (values : List (NativeExpr δ))
  /-- A call whose result is returned; `yieldContinuationId` is where it parks when the
  reductions are used up. -/
  | tailCall (function : Nat) (args : List (NativeExpr δ)) (yieldContinuationId : Option Nat)
  | callThen (function : Nat) (args : List (NativeExpr δ)) (resumes : List NativeCallResume)
      (completionContinuationId : Nat) (completionFunction : Option Nat)
      (values : List (NativeExpr δ))
  | continuationTailCall (continuationId : Nat) (args : List (NativeExpr δ))
  | letIn (bindings : List (NativeExpr δ)) (body : NativeExpr δ)
  | ifElse (clauses : List (NativeClause (NativeExpr δ)))
  | tryRegion (region success failure : NativeExpr δ) (cleanup : List (NativeExpr δ))
  | suspend (operation : NativeTransitionOperation) (arguments : List (NativeExpr δ))
      (continuationId : Nat) (values : List (NativeExpr δ))

variable {δ : Type}

def NativeClause.parts (clause : NativeClause (NativeExpr δ)) : List (NativeExpr δ) :=
  [clause.condition, clause.body]

/-- Immediate subexpressions. -/
def NativeExpr.parts : NativeExpr δ → List (NativeExpr δ)
  | .operation _ args | .call _ args | .tailCall _ args _ | .continuationTailCall _ args => args
  | .param _ => []
  | .invokeClosure callee args _ _ => callee :: args
  | .invokeClosureThen callee args _ _ _ _ _ values => callee :: (args ++ values)
  | .callThen _ args _ _ _ values => args ++ values
  | .letIn bindings body => bindings ++ [body]
  | .ifElse clauses => clauses.flatMap NativeClause.parts
  | .tryRegion region success failure cleanup => [region, success, failure] ++ cleanup
  | .suspend _ arguments _ values => arguments ++ values

/-- Induction over expressions: what holds of an expression when it holds of its immediate
subexpressions holds of every expression. -/
theorem NativeExpr.induction {P : NativeExpr δ → Prop} (step : ∀ e : NativeExpr δ, (∀ c ∈ e.parts, P c) → P e)
    (e : NativeExpr δ) : P e :=
  @NativeExpr.rec δ P (fun es => ∀ c ∈ es, P c)
    (fun clauses => ∀ c ∈ clauses.flatMap NativeClause.parts, P c) (fun clause => ∀ c ∈ clause.parts, P c)
    (fun operation args h => step (.operation operation args) h)
    (fun index => step (.param index) (forall_mem_nil P))
    (fun function args h => step (.call function args) h)
    (fun callee args types result hc h => step (.invokeClosure callee args types result)
      (forall_mem_cons.mpr ⟨hc, h⟩))
    (fun callee args types result resumes completion function values hc ha hv =>
      step (.invokeClosureThen callee args types result resumes completion function values)
        (forall_mem_cons.mpr ⟨hc, forall_mem_append.mpr ⟨ha, hv⟩⟩))
    (fun function args yieldId h => step (.tailCall function args yieldId) h)
    (fun function args resumes completion target values ha hv =>
      step (.callThen function args resumes completion target values)
        (forall_mem_append.mpr ⟨ha, hv⟩))
    (fun id args h => step (.continuationTailCall id args) h)
    (fun bindings body hb h => step (.letIn bindings body)
      (forall_mem_append.mpr ⟨hb, forall_mem_singleton.mpr h⟩))
    (fun clauses h => step (.ifElse clauses) h)
    (fun region success failure cleanup hr hs hf hc => step (.tryRegion region success failure cleanup)
      (forall_mem_append.mpr ⟨forall_mem_cons.mpr ⟨hr, forall_mem_cons.mpr
        ⟨hs, forall_mem_singleton.mpr hf⟩⟩, hc⟩))
    (fun operation arguments id values ha hv => step (.suspend operation arguments id values)
      (forall_mem_append.mpr ⟨ha, hv⟩))
    (forall_mem_nil P) (fun _ _ head tail => forall_mem_cons.mpr ⟨head, tail⟩)
    (forall_mem_nil P)
    (fun _ _ head tail => by
      rw [flatMap_cons]
      exact forall_mem_append.mpr ⟨head, tail⟩)
    (fun _ _ hc hb => forall_mem_cons.mpr ⟨hc, forall_mem_singleton.mpr hb⟩) e

/-! ## Equality -/

section equality

variable [DecidableEq δ]

mutual

/-- Structural equality. -/
def sameExpr : NativeExpr δ → NativeExpr δ → Bool
  | .operation operation args, .operation operation' args' =>
    decide (operation = operation') && sameExprs args args'
  | .param index, .param index' => decide (index = index')
  | .call function args, .call function' args' =>
    decide (function = function') && sameExprs args args'
  | .invokeClosure callee args types result, .invokeClosure callee' args' types' result' =>
    sameExpr callee callee' && sameExprs args args' && decide (types = types' ∧ result = result')
  | .invokeClosureThen callee args types result resumes completion function values,
      .invokeClosureThen callee' args' types' result' resumes' completion' function' values' =>
      sameExpr callee callee' && sameExprs args args' && sameExprs values values' &&
        decide (types = types' ∧ result = result' ∧ resumes = resumes' ∧
          completion = completion' ∧ function = function')
  | .tailCall function args yieldId, .tailCall function' args' yieldId' =>
    sameExprs args args' && decide (function = function' ∧ yieldId = yieldId')
  | .callThen function args resumes completion target values,
      .callThen function' args' resumes' completion' target' values' =>
      sameExprs args args' && sameExprs values values' &&
        decide (function = function' ∧ resumes = resumes' ∧ completion = completion' ∧ target = target')
  | .continuationTailCall id args, .continuationTailCall id' args' =>
    decide (id = id') && sameExprs args args'
  | .letIn bindings body, .letIn bindings' body' => sameExprs bindings bindings' && sameExpr body body'
  | .ifElse clauses, .ifElse clauses' => sameClauses clauses clauses'
  | .tryRegion region success failure cleanup, .tryRegion region' success' failure' cleanup' =>
    sameExpr region region' && sameExpr success success' && sameExpr failure failure' &&
      sameExprs cleanup cleanup'
  | .suspend operation arguments id values, .suspend operation' arguments' id' values' =>
    sameExprs arguments arguments' && sameExprs values values' &&
      decide (operation = operation' ∧ id = id')
  | _, _ => false

def sameExprs : List (NativeExpr δ) → List (NativeExpr δ) → Bool
  | [], [] => true
  | e :: es, e' :: es' => sameExpr e e' && sameExprs es es'
  | _, _ => false

def sameClauses : List (NativeClause (NativeExpr δ)) → List (NativeClause (NativeExpr δ)) → Bool
  | [], [] => true
  | ⟨condition, body⟩ :: clauses, ⟨condition', body'⟩ :: clauses' =>
    sameExpr condition condition' && sameExpr body body' && sameClauses clauses clauses'
  | _, _ => false

end

theorem sameExprs_iff {es es' : List (NativeExpr δ)}
    (each : ∀ e ∈ es, ∀ e', sameExpr e e' = true ↔ e = e') : sameExprs es es' = true ↔ es = es' := by
  induction es generalizing es' with
  | nil => cases es' <;> simp [sameExprs]
  | cons e es ih =>
    obtain ⟨first, rest⟩ := forall_mem_cons.mp each
    cases es' with
    | nil => simp [sameExprs]
    | cons e' es' => simp [sameExprs, first, ih rest]

theorem sameClauses_iff {clauses clauses' : List (NativeClause (NativeExpr δ))}
    (each : ∀ e ∈ clauses.flatMap NativeClause.parts, ∀ e', sameExpr e e' = true ↔ e = e') :
    sameClauses clauses clauses' = true ↔ clauses = clauses' := by
  induction clauses generalizing clauses' with
  | nil => cases clauses' <;> simp [sameClauses]
  | cons clause clauses ih =>
    rw [flatMap_cons] at each
    obtain ⟨first, rest⟩ := forall_mem_append.mp each
    have condition := first clause.condition (by simp [NativeClause.parts])
    have body := first clause.body (by simp [NativeClause.parts])
    cases clauses' with
    | nil => simp [sameClauses]
    | cons clause' clauses' =>
      obtain ⟨c, b⟩ := clause
      obtain ⟨c', b'⟩ := clause'
      simp [sameClauses, condition, body, ih rest]

theorem sameExpr_iff (e e' : NativeExpr δ) : sameExpr e e' = true ↔ e = e' := by
  induction e using NativeExpr.induction generalizing e' with
  | step e ih =>
    cases e with
    | operation operation args | call function args | continuationTailCall id args =>
      have sameArgs := fun es' => @sameExprs_iff _ _ args es' ih
      cases e' <;> simp [sameExpr, sameArgs]
    | tailCall function args yieldId =>
      have sameArgs := fun es' => @sameExprs_iff _ _ args es' ih
      cases e' <;> simp [sameExpr, sameArgs]
      grind
    | param index => cases e' <;> simp [sameExpr]
    | invokeClosure callee args types result =>
      obtain ⟨hc, ha⟩ := forall_mem_cons.mp ih
      cases e' <;> simp [sameExpr, hc, sameExprs_iff ha, and_assoc]
    | invokeClosureThen callee args types result resumes completion function values =>
      obtain ⟨hc, rest⟩ := forall_mem_cons.mp ih
      obtain ⟨ha, hv⟩ := forall_mem_append.mp rest
      cases e' <;> simp [sameExpr, hc, sameExprs_iff ha, sameExprs_iff hv]
      grind
    | callThen | suspend =>
      obtain ⟨ha, hv⟩ := forall_mem_append.mp ih
      cases e' <;> simp [sameExpr, sameExprs_iff ha, sameExprs_iff hv]
      grind
    | letIn bindings body =>
      obtain ⟨hb, h⟩ := forall_mem_append.mp ih
      cases e' <;> simp [sameExpr, sameExprs_iff hb, h body (mem_singleton_self body)]
    | ifElse clauses =>
      have same := fun clauses' => @sameClauses_iff _ _ clauses clauses' ih
      cases e' <;> simp [sameExpr, same]
    | tryRegion region success failure cleanup =>
      obtain ⟨first, hc⟩ := forall_mem_append.mp ih
      cases e' <;> simp [sameExpr, sameExprs_iff hc, first region (by simp),
        first success (by simp), first failure (by simp), and_assoc]

instance : DecidableEq (NativeExpr δ) := fun e e' => decidable_of_iff _ (sameExpr_iff e e')

end equality

end Terlan.NativeIr
