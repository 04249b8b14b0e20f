/-
  Runs of native code. A body returns a value, fails, or parks under the identity of a
  continuation with its captured values; every caller that is passed on the way out adds a
  completion frame of its own. The virtual machine enters a parked continuation with what
  arrived for it and its captured values, and the completion frames with the values that come
  out.

  What computes with values is a parameter. A run notes the continuations that it enters and
  the calls whose callee parked. Running out of fuel is a way to stop.
-/
import Terlan.Lib.Log
import Terlan.NativeIr.Interning

namespace Terlan.NativeIr

open Terlan.Lib

/-! ## Ends of a run -/

/-- A parked computation: what it asks for, the continuation it parks under with the captured
values, and the completions of its callers from the inside out. -/
structure Parked (V : Type) where
  operation : NativeTransitionOperation
  arguments : List V
  id : Nat
  values : List V
  frames : List (Nat × List V)

inductive Failure (F : Type) where
  | raised (error : F)
  | missingParam
  | missingFunction
  | missingContinuation
  | continuationArity
  | completionShape
  | noMatchingBranch
  /-- The callee of an operand parked. -/
  | transitioned (operation : NativeTransitionOperation)
  /-- The callee parked under an identity that the call does not list. -/
  | unknownContinuation
  | transitionCapacity
  /-- A form that ends a body stands in an operand. -/
  | unsupported

inductive Stop (V F : Type) where
  | failed (failure : Failure F)
  | parked (parked : Parked V)
  | exhausted

/-! ## Notes -/

inductive Event (V : Type) where
  | entered (id : Nat) (args : List V)
  /-- The callee of a call with these edges parked under an identity. -/
  | wrapped (edges : List NativeCallResume) (id : Nat)

structure World (V σ : Type) where
  runtime : σ
  events : List (Event V)

/-- What values are and what computes with them. -/
structure NativeRuntime (δ V F σ : Type) where
  perform : NativeOperation δ → List V → σ → σ × Except F V
  isTrue : V → Bool
  /-- The value that the failure branch of a `try` is given. -/
  statusWord : Failure F → V
  /-- The exported identity and the function of a closure, and the arguments with what it
  captured. -/
  resolve : V → List V → List NativeType → NativeType → σ → σ × Except F (Nat × Nat × List V)
  reductionsExhausted : σ → σ × Bool
  /-- Whether a transition of a number of words holds the captures of the callee. -/
  holds : NativeTransitionOperation → Nat → Nat → Bool
  capacity : Nat
  /-- How many values arrive for a parked computation. -/
  injects : NativeTransitionOperation → List V → Nat

inductive Entry where
  | function (index : Nat)
  | continuation (id : Nat)

section run

variable {δ V F σ : Type}

abbrev Running (V F σ α : Type) := Method (Stop V F) (World V σ) α

def emit (event : Event V) : Running V F σ Unit :=
  modify fun w => { w with events := event :: w.events }

/-- A step of the runtime. -/
def ofRuntime {α : Type} (f : σ → σ × Except F α) : Running V F σ α :=
  .ofCall fun w => ({ w with runtime := (f w.runtime).1 },
    (f w.runtime).2.mapError fun error => .failed (.raised error))

def fail {α : Type} (failure : Failure F) : Running V F σ α := throw (.failed failure)

/-- A callee that parks fails in an operand. -/
def Stop.asOperand : Stop V F → Stop V F
  | .parked callee => .failed (.transitioned callee.operation)
  | stop => stop

variable (R : NativeRuntime δ V F σ) (enter : Entry → List V → Running V F σ V)

/-! ## Operands -/

def invoke (callee : V) (args : List V) (types : List NativeType) (result : NativeType) :
    Running V F σ (Nat × Except (Stop V F) V) := do
  let target ← ofRuntime (R.resolve callee args types result)
  let outcome ← (enter (.function target.2.1) target.2.2).attempt
  return (target.1, outcome)

/-- The clean-up of a `try` runs whatever was selected, and its own failure comes first. -/
def finishTry (selected : Except (Stop V F) V) (cleanup : Running V F σ (List V)) :
    Running V F σ V :=
  match selected with
  | .error .exhausted => throw .exhausted
  | selected => do
    let _ ← cleanup
    liftM selected

/-- The failure branch takes a failure of the region or of the success branch. -/
def selectTry (selected : Except (Stop V F) V) (recover : Failure F → Running V F σ V) :
    Running V F σ (Except (Stop V F) V) :=
  match selected with
  | .error (.failed failure) => (recover failure).attempt
  | selected => pure selected

mutual

/-- Evaluation of an operand, with the parameters and the bindings so far. -/
def evaluate : NativeExpr δ → List V → Running V F σ V
  | .operation operation args, env => do
    let args ← evaluateAll args env
    ofRuntime (R.perform operation args)
  | .param index, env =>
    match env[index]? with
    | some value => pure value
    | none => fail .missingParam
  | .call function args, env => do
    let args ← evaluateAll args env
    (enter (.function function) args).mapError Stop.asOperand
  | .invokeClosure callee args types result, env => do
    let callee ← evaluate callee env
    let args ← evaluateAll args env
    let outcome ← invoke R enter callee args types result
    (liftM outcome.2 : Running V F σ V).mapError Stop.asOperand
  | .letIn bindings body, env => do
    let env ← evaluateBindings bindings env
    evaluate body env
  | .ifElse clauses, env => evaluateClauses clauses env
  | .tryRegion region success failure cleanup, env => do
    let protectedRun : Running V F σ V := do
      let value ← evaluate region env
      evaluate success (env ++ [value])
    let selected ← protectedRun.attempt
    let selected ← selectTry selected fun status => evaluate failure (env ++ [R.statusWord status])
    finishTry selected (evaluateAll cleanup env)
  | .invokeClosureThen .., _ | .tailCall .., _ | .callThen .., _ | .continuationTailCall .., _
  | .suspend .., _ => fail .unsupported

def evaluateAll : List (NativeExpr δ) → List V → Running V F σ (List V)
  | [], _ => pure []
  | e :: es, env => do
    let value ← evaluate e env
    let values ← evaluateAll es env
    return value :: values

/-- Each binding is a further parameter of those after it. -/
def evaluateBindings : List (NativeExpr δ) → List V → Running V F σ (List V)
  | [], env => pure env
  | e :: es, env => do
    let value ← evaluate e env
    evaluateBindings es (env ++ [value])

def evaluateClauses : List (NativeClause (NativeExpr δ)) → List V → Running V F σ V
  | [], _ => fail .noMatchingBranch
  | ⟨condition, body⟩ :: clauses, env => do
    let value ← evaluate condition env
    if R.isTrue value then evaluate body env else evaluateClauses clauses env

end

/-! ## Bodies -/

/-- Words of a transition: its values, and with each frame its identity and its size. -/
def Parked.words (parked : Parked V) : Nat :=
  (parked.arguments ++ parked.values).length +
    parked.frames.foldl (fun words frame => words + (frame.2.length + 2)) 0

/-- Completions that come after those so far. -/
def Parked.push (parked : Parked V) (frames : List (Nat × List V)) : Parked V :=
  { parked with frames := parked.frames ++ frames }

/-- A call whose callee parked parks too. Where its edge leads to the continuation of the callee
itself it adds nothing, and otherwise a completion frame with its own values. -/
def passEdge (edge : NativeCallResume) (parked : Parked V) (values : List (NativeExpr δ))
    (env : List V) : Running V F σ V :=
  if ¬ R.holds parked.operation parked.words edge.calleeCaptureCount then fail .transitionCapacity
  else if edge.continuationId = edge.calleeContinuationId then throw (.parked parked)
  else if parked.words + (values.length - edge.callerValueStart) + 2 > R.capacity then
    fail .transitionCapacity
  else do
    let values ← evaluateAll R enter (values.drop edge.callerValueStart) env
    throw (.parked (parked.push [(edge.continuationId, values)]))

/-- Finds the edge of a call for the identity that its callee parked under. -/
def wrapYield (edges : List NativeCallResume) (parked : Parked V) (values : List (NativeExpr δ))
    (env : List V) : Running V F σ V := do
  emit (.wrapped edges parked.id)
  match edges.find? fun edge => edge.calleeContinuationId = parked.id with
  | none => fail .unknownContinuation
  | some edge => passEdge R enter edge parked values env

/-- What follows a call that is not the last step of its body. -/
def afterCall (outcome : Except (Stop V F) V) (edges : List NativeCallResume) (completion : Nat)
    (values : List (NativeExpr δ)) (env : List V) : Running V F σ V :=
  match outcome with
  | .ok value => do
    let values ← evaluateAll R enter values env
    enter (.continuation completion) (values ++ [value])
  | .error (.parked parked) => wrapYield R enter edges parked values env
  | .error stop => throw stop

/-- The edges of a dynamic call for a callee. -/
def edgesFor (target : Nat) (resumes : List NativeDynamicCallResume) : List NativeCallResume :=
  (resumes.filter fun resume => resume.calleeExportId = target).map fun resume =>
    ⟨resume.calleeContinuationId, resume.calleeCaptureCount, resume.continuationId, 0⟩

def checkReductions (yieldId : Option Nat) (args : List V) : Running V F σ Unit :=
  match yieldId with
  | none => pure ()
  | some id => do
    let exhausted ← ofRuntime fun s => ((R.reductionsExhausted s).1, .ok (R.reductionsExhausted s).2)
    if exhausted then throw (.parked ⟨.yield, [], id, args, []⟩) else pure ()

mutual

/-- A body, where the forms that end it are allowed. -/
def runBody : NativeExpr δ → List V → Running V F σ V
  | .letIn bindings body, env => do
    let env ← evaluateBindings R enter bindings env
    runBody body env
  | .ifElse clauses, env => runClauses clauses env
  | .suspend operation arguments id values, env => do
    let arguments ← evaluateAll R enter arguments env
    let values ← evaluateAll R enter values env
    throw (.parked ⟨operation, arguments, id, values, []⟩)
  | .callThen function args resumes completion _ values, env => do
    let args ← evaluateAll R enter args env
    let outcome ← (enter (.function function) args).attempt
    afterCall R enter outcome resumes completion values env
  | .invokeClosure callee args types result, env => do
    let callee ← evaluate R enter callee env
    let args ← evaluateAll R enter args env
    let outcome ← invoke R enter callee args types result
    liftM outcome.2
  | .invokeClosureThen callee args types result resumes completion _ values, env => do
    let callee ← evaluate R enter callee env
    let args ← evaluateAll R enter args env
    let outcome ← invoke R enter callee args types result
    afterCall R enter outcome.2 (edgesFor outcome.1 resumes) completion values env
  | .tailCall function args yieldId, env => do
    let args ← evaluateAll R enter args env
    checkReductions R yieldId args
    enter (.function function) args
  | .continuationTailCall id args, env => do
    let args ← evaluateAll R enter args env
    enter (.continuation id) args
  | .operation operation args, env => evaluate R enter (.operation operation args) env
  | .param index, env => evaluate R enter (.param index) env
  | .call function args, env => evaluate R enter (.call function args) env
  | .tryRegion region success failure cleanup, env =>
    evaluate R enter (.tryRegion region success failure cleanup) env

def runClauses : List (NativeClause (NativeExpr δ)) → List V → Running V F σ V
  | [], _ => fail .noMatchingBranch
  | ⟨condition, body⟩ :: clauses, env => do
    let value ← evaluate R enter condition env
    if R.isTrue value then runBody body env else runClauses clauses env

end

end run

/-! ## Programs and the virtual machine -/

section program

variable {δ V F σ : Type} (R : NativeRuntime δ V F σ) (program : NativeProgram δ)

def NativeProgram.find (program : NativeProgram δ) (id : Nat) : Option (NativeContinuation δ) :=
  program.continuations.find? fun continuation => continuation.id = id

def NativeProgram.body (program : NativeProgram δ) (id : Nat) : Option (NativeExpr δ) :=
  (program.find id).map (·.body)

def NativeProgram.arity (program : NativeProgram δ) (id : Nat) : Option Nat :=
  (program.find id).map (·.params.length)

def runTarget (enter : Entry → List V → Running V F σ V) (target : Option (NativeExpr δ))
    (missing : Failure F) (args : List V) : Running V F σ V :=
  match target with
  | some body => runBody R enter body args
  | none => fail missing

def NativeProgram.enter : Nat → Entry → List V → Running V F σ V
  | 0, _, _ => throw .exhausted
  | fuel + 1, .function index, args =>
    runTarget R (enter fuel) program.functions[index]? .missingFunction args
  | fuel + 1, .continuation id, args => do
    emit (.entered id args)
    runTarget R (enter fuel) (program.body id) .missingContinuation args

/-- The virtual machine parks under continuations that it knows, with as many values as they
take. -/
def NativeProgram.accept (parked : Parked V) : Except (Stop V F) Unit :=
  match program.arity parked.id with
  | none => .error (.failed .missingContinuation)
  | some arity =>
    if arity ≠ R.injects parked.operation parked.arguments + parked.values.length then
      .error (.failed .continuationArity)
    else if parked.frames.all fun frame => program.arity frame.1 = some (frame.2.length + 1) then
      .ok ()
    else .error (.failed .completionShape)

/-- Enters something and what is to be completed after it. `arrivals` are what arrives for the
computation each time it parks. -/
def NativeProgram.drive (fuel : Nat) : Nat → Entry → List V → List (Nat × List V) →
    List (List V) → Running V F σ V
  | 0, _, _, _, _ => throw .exhausted
  | steps + 1, entry, args, completions, arrivals => do
    let outcome ← (program.enter R fuel entry args).attempt
    match outcome with
    | .ok value =>
      match completions with
      | [] => pure value
      | (id, captures) :: completions =>
        drive fuel steps (.continuation id) (captures ++ [value]) completions arrivals
    | .error (.parked parked) => do
      liftM (program.accept R parked)
      match arrivals with
      | [] => throw (.parked (parked.push completions))
      | arrived :: arrivals =>
        drive fuel steps (.continuation parked.id) (arrived ++ parked.values)
          (parked.push completions).frames arrivals
    | .error stop => throw stop

end program

end Terlan.NativeIr
