/-
  What the purity check of a body meets, as a relation between expressions and operations,
  and the set of inferred callables as the greatest one the check agrees with.
-/
import Terlan.Purity.Infer

namespace Terlan.Purity

open Terlan.Lib List
open Terlan.Syntax

/-! ## The check of an expression -/

/-- Subexpressions the check goes into. The guards of let bindings are not among them. -/
def visited : SyntaxExprOutput → List SyntaxExprOutput
  | .node _ children _ fields clauses catchClauses tryAfter _ =>
    children ++ fields.map SyntaxExprFieldOutput.value ++
      clauses.flatMap SyntaxClauseOutput.parts ++ catchClauses.flatMap SyntaxClauseOutput.parts ++
      tryAfter.toList.flatMap SyntaxTryAfterOutput.parts

theorem visited_subset_parts (e : SyntaxExprOutput) : ∀ c ∈ visited e, c ∈ e.parts := by
  obtain ⟨head, children, letGuards, fields, clauses, catchClauses, tryAfter, htmlExprs⟩ := e
  intro c mem
  simp only [visited, SyntaxExprOutput.parts, mem_append] at mem ⊢
  tauto

section check

variable {proven : Finset CallableIdentity}

theorem childrenArePure_iff (children : List SyntaxExprOutput) :
    childrenArePure proven children = true ↔
      ∀ c ∈ children, expressionIsPureUnder proven c = true := by
  induction children with
  | nil => simp [childrenArePure]
  | cons child children ih => simp [childrenArePure, ih]

theorem fieldsArePure_iff (fields : List (SyntaxExprFieldOutput SyntaxExprOutput)) :
    fieldsArePure proven fields = true ↔
      ∀ c ∈ fields.map SyntaxExprFieldOutput.value, expressionIsPureUnder proven c = true := by
  induction fields with
  | nil => simp [fieldsArePure]
  | cons field fields ih => rw [fieldsArePure, Bool.and_eq_true, ih]; simp

theorem clausesArePure_iff (clauses : List (SyntaxClauseOutput SyntaxExprOutput)) :
    clausesArePure proven clauses = true ↔
      ∀ c ∈ clauses.flatMap SyntaxClauseOutput.parts, expressionIsPureUnder proven c = true := by
  induction clauses with
  | nil => simp [clausesArePure]
  | cons clause clauses ih =>
    obtain ⟨patterns, _ | guard, body⟩ := clause
    · rw [clausesArePure, Bool.and_eq_true, ih]
      simp [SyntaxClauseOutput.parts]
    · rw [clausesArePure, Bool.and_eq_true, Bool.and_eq_true, ih, and_assoc]
      simp [SyntaxClauseOutput.parts]

theorem afterIsPure_iff (after : Option (SyntaxTryAfterOutput SyntaxExprOutput)) :
    afterIsPure proven after = true ↔
      ∀ c ∈ after.toList.flatMap SyntaxTryAfterOutput.parts, expressionIsPureUnder proven c = true := by
  cases after with
  | none => simp [afterIsPure]
  | some after => simp [afterIsPure, SyntaxTryAfterOutput.parts]

/-- The check passes an expression that defers its body, and one whose own test and whose
visited subexpressions pass. -/
theorem expressionIsPureUnder_iff (e : SyntaxExprOutput) : expressionIsPureUnder proven e = true ↔
      syntaxExpressionDefersBody e = true ∨
        headIsPureUnder proven e = true ∧ ∀ c ∈ visited e, expressionIsPureUnder proven c = true := by
  obtain ⟨head, children, letGuards, fields, clauses, catchClauses, tryAfter, htmlExprs⟩ := e
  rw [expressionIsPureUnder]
  split
  · rename_i defers
    simp [defers]
  rename_i defers
  simp only [Bool.and_eq_true, childrenArePure_iff, fieldsArePure_iff, clausesArePure_iff,
    afterIsPure_iff, visited, forall_mem_append, and_assoc]
  simp [defers]

end check

/-! ## Operations -/

/-- What evaluating an expression can do beside computing a value. -/
inductive Operation where
  | effect (kind : SyntaxExprKind)
  /-- The value named `native`. -/
  | nativeValue
  /-- A call of a function value that a local name holds. -/
  | functionValue (name : String)
  /-- A call that leaves the module, or that nothing of the module answers. -/
  | unproven
  /-- A call of a callable whose declaration has no body to look at. -/
  | withoutBody (identity : CallableIdentity)
  | call (identity : CallableIdentity)

/-- Operations that a body may perform when the callables of a set are pure. -/
def Allowed (proven : Finset CallableIdentity) : Operation → Prop
  | .call identity => identity ∈ proven
  | _ => False

theorem Allowed.exists_call {proven : Finset CallableIdentity} {op : Operation}
    (allowed : Allowed proven op) : ∃ identity ∈ proven, op = .call identity := by
  cases op with
  | call identity => exact ⟨identity, allowed, rfl⟩
  | effect kind | nativeValue | functionValue name | unproven | withoutBody identity =>
    exact allowed.elim

def Declares (module : SyntaxModuleOutput) (identity : CallableIdentity) : Prop :=
  ∃ declaration ∈ module.declarations, syntaxDeclarationCallableIdentity declaration = some identity

/-- The operation the check takes an expression to perform itself. -/
inductive SeesOwn (module : SyntaxModuleOutput) (e : SyntaxExprOutput) : Operation → Prop
  | effect : isEffectKind e.kind = true → SeesOwn module e (.effect e.kind)
  | nativeValue : isNativeVar e = true → SeesOwn module e .nativeValue
  | outside : e.kind = .call → localSyntaxCallIdentity e = none → SeesOwn module e .unproven
  | undeclared {identity : CallableIdentity} : e.kind = .call →
      localSyntaxCallIdentity e = some identity → ¬ Declares module identity →
      SeesOwn module e .unproven
  | call {identity : CallableIdentity} : e.kind = .call →
      localSyntaxCallIdentity e = some identity → Declares module identity →
      SeesOwn module e (.call identity)

/-- Operations that the check meets in an expression. -/
inductive Sees (module : SyntaxModuleOutput) : SyntaxExprOutput → Operation → Prop
  | own {e : SyntaxExprOutput} {op : Operation} : syntaxExpressionDefersBody e = false →
      SeesOwn module e op → Sees module e op
  | part {e c : SyntaxExprOutput} {op : Operation} : syntaxExpressionDefersBody e = false →
      c ∈ visited e → Sees module c op → Sees module e op

section sees

variable {module : SyntaxModuleOutput} {proven : Finset CallableIdentity}

/-- The own test of an expression allows exactly what it takes the expression to perform. -/
theorem headIsPureUnder_iff (declared : ∀ identity ∈ proven, Declares module identity)
    (e : SyntaxExprOutput) :
    headIsPureUnder proven e = true ↔ ∀ op, SeesOwn module e op → Allowed proven op := by
  constructor
  · intro pure op sees
    rw [headIsPureUnder] at pure
    cases sees with
    | effect acts | nativeValue acts => simp [acts] at pure
    | outside kind none => simp [kind, none] at pure
    | undeclared kind called absent =>
      simp only [kind, called] at pure
      simp only [beq_self_eq_true, if_true] at pure
      split at pure
      · simp at pure
      · exact absurd (declared _ (of_decide_eq_true pure)) absent
    | call kind called _ =>
      simp only [kind, called] at pure
      simp only [beq_self_eq_true, if_true] at pure
      split at pure
      · simp at pure
      · have inside := of_decide_eq_true pure
        exact inside
  · intro allowed
    rw [headIsPureUnder]
    split
    · rename_i acts
      cases effect : isEffectKind e.kind with
      | true => exact (allowed _ (.effect effect)).elim
      | false => exact (allowed _ (.nativeValue (by simpa [effect] using acts))).elim
    · split
      · rename_i kind
        have kind := eq_of_beq kind
        cases called : localSyntaxCallIdentity e with
        | none => exact (allowed _ (.outside kind called)).elim
        | some identity =>
          by_cases inside : Declares module identity
          · exact decide_eq_true (allowed _ (.call kind called inside))
          · exact (allowed _ (.undeclared kind called inside)).elim
      · rfl

/-- The check passes an expression when everything it meets there is allowed. -/
theorem expressionIsPureUnder_iff_sees (declared : ∀ identity ∈ proven, Declares module identity)
    (e : SyntaxExprOutput) :
    expressionIsPureUnder proven e = true ↔ ∀ op, Sees module e op → Allowed proven op := by
  induction e using SyntaxExprOutput.induction with
  | step e ih =>
    rw [expressionIsPureUnder_iff, headIsPureUnder_iff declared]
    constructor
    · intro passes op sees
      cases sees with
      | own runs sees =>
        obtain defers | ⟨own, _⟩ := passes
        · rw [runs] at defers; cases defers
        · exact own op sees
      | part runs mem sees =>
        obtain defers | ⟨_, parts⟩ := passes
        · rw [runs] at defers; cases defers
        · exact (ih _ (visited_subset_parts e _ mem)).mp (parts _ mem) op sees
    · intro allowed
      cases defers : syntaxExpressionDefersBody e with
      | true => exact .inl rfl
      | false =>
        refine .inr ⟨fun op sees => allowed op (.own defers sees), fun c mem => ?_⟩
        exact (ih c (visited_subset_parts e c mem)).mpr
          fun op sees => allowed op (.part defers mem sees)

end sees

/-! ## The check of a declaration -/

/-- Expressions of a callable that the check starts from: defaults, guards and bodies. -/
def checkedExprs (declaration : SyntaxDeclarationOutput) : List SyntaxExprOutput :=
  match declaration.payload with
  | .function _ params clauses =>
    params.flatMap (·.default.toList) ++ clauses.flatMap fun clause => clause.guard.toList ++ [clause.body]
  | .method _ _ params clauses =>
    params.flatMap (·.default.toList) ++ clauses.flatMap fun clause => clause.guard.toList ++ [clause.body]
  | _ => []

/-- Operations that the check meets in a callable. -/
def DeclarationSees (module : SyntaxModuleOutput) (declaration : SyntaxDeclarationOutput)
    (op : Operation) : Prop :=
  ∃ e ∈ checkedExprs declaration, Sees module e op

section declarations

variable {module : SyntaxModuleOutput} {proven : Finset CallableIdentity}
  {declaration : SyntaxDeclarationOutput} {identity : CallableIdentity}

theorem params_all_iff (params : List SyntaxParamOutput) :
    params.all (paramDefaultIsPure proven) = true ↔
      ∀ e ∈ params.flatMap (·.default.toList), expressionIsPureUnder proven e = true := by
  induction params with
  | nil => simp
  | cons param params ih =>
    rw [all_cons, Bool.and_eq_true, ih, flatMap_cons, forall_mem_append]
    refine and_congr_left fun _ => ?_
    obtain ⟨name, _ | default⟩ := param
    · simp [paramDefaultIsPure]
    · simp [paramDefaultIsPure]

theorem clauses_all_iff (clauses : List SyntaxFunctionClauseOutput) :
    clauses.all (clauseIsPureUnder proven) = true ↔
      ∀ e ∈ clauses.flatMap fun clause => clause.guard.toList ++ [clause.body],
        expressionIsPureUnder proven e = true := by
  induction clauses with
  | nil => simp
  | cons clause clauses ih =>
    rw [all_cons, Bool.and_eq_true, ih, flatMap_cons, forall_mem_append]
    refine and_congr_left fun _ => ?_
    obtain ⟨patterns, _ | guard, body⟩ := clause
    · simp [clauseIsPureUnder]
    · simp [clauseIsPureUnder]

theorem callableIsPureUnder_iff
    (callable : syntaxDeclarationCallableIdentity declaration = some identity) :
    callableIsPureUnder proven declaration = true ↔
      ∀ e ∈ checkedExprs declaration, expressionIsPureUnder proven e = true := by
  obtain ⟨annotations, payload⟩ := declaration
  cases payload with
  | function | method =>
    rw [callableIsPureUnder, checkedExprs, Bool.and_eq_true, params_all_iff, clauses_all_iff,
      forall_mem_append]
  | constant name value | constFunction name params body | constructor name clauses | other =>
    cases callable

/-- The check of a callable passes when everything it meets there is allowed. -/
theorem callableIsPureUnder_iff_sees
    (callable : syntaxDeclarationCallableIdentity declaration = some identity)
    (declared : ∀ identity ∈ proven, Declares module identity) :
    callableIsPureUnder proven declaration = true ↔
      ∀ op, DeclarationSees module declaration op → Allowed proven op := by
  rw [callableIsPureUnder_iff callable]
  constructor
  · rintro passes op ⟨e, mem, sees⟩
    exact (expressionIsPureUnder_iff_sees declared e).mp (passes e mem) op sees
  · intro allowed e mem
    exact (expressionIsPureUnder_iff_sees declared e).mpr
      fun op sees => allowed op ⟨e, mem, sees⟩

end declarations

/-! ## The inferred set -/

section monotone

variable {proven larger : Finset CallableIdentity}

theorem headIsPureUnder_mono (subset : proven ⊆ larger) {e : SyntaxExprOutput}
    (pure : headIsPureUnder proven e = true) : headIsPureUnder larger e = true := by
  rw [headIsPureUnder] at pure ⊢
  split at pure
  · cases pure
  rename_i quiet
  rw [if_neg quiet]
  split at pure
  · rename_i kind
    rw [if_pos kind]
    cases called : localSyntaxCallIdentity e with
    | none => rw [called] at pure; cases pure
    | some identity =>
      rw [called] at pure
      exact decide_eq_true (subset (of_decide_eq_true pure))
  · rename_i kind
    rw [if_neg kind]

theorem expressionIsPureUnder_mono (subset : proven ⊆ larger) (e : SyntaxExprOutput)
    (pure : expressionIsPureUnder proven e = true) : expressionIsPureUnder larger e = true := by
  induction e using SyntaxExprOutput.induction with
  | step e ih =>
    rw [expressionIsPureUnder_iff] at pure ⊢
    obtain defers | ⟨own, parts⟩ := pure
    · exact .inl defers
    · exact .inr ⟨headIsPureUnder_mono subset own,
        fun c mem => ih c (visited_subset_parts e c mem) (parts c mem)⟩

theorem callableIsPureUnder_mono (subset : proven ⊆ larger) {declaration : SyntaxDeclarationOutput}
    {identity : CallableIdentity}
    (callable : syntaxDeclarationCallableIdentity declaration = some identity)
    (pure : callableIsPureUnder proven declaration = true) :
    callableIsPureUnder larger declaration = true := by
  rw [callableIsPureUnder_iff callable] at pure ⊢
  exact fun e mem => expressionIsPureUnder_mono subset e (pure e mem)

end monotone

section greatest

variable (coreIntrinsicIsPure : String → String → Nat → Bool) (module : SyntaxModuleOutput)

/-- A callable that is asserted to be pure, or whose declarations all pass the check. -/
def Passes (proven : Finset CallableIdentity) (identity : CallableIdentity) : Prop :=
  identity ∈ candidateCallables coreIntrinsicIsPure module →
    ∀ declaration ∈ module.declarations,
      syntaxDeclarationCallableIdentity declaration = some identity →
      callableIsPureUnder proven declaration = true

theorem mem_rejectedCallables (proven : Finset CallableIdentity) (identity : CallableIdentity) :
    identity ∈ (rejectedCallables coreIntrinsicIsPure module proven).map Subtype.val ↔
      identity ∈ proven ∧ ¬ Passes coreIntrinsicIsPure module proven identity := by
  rw [rejectedCallables, map_filterMap, mem_filterMap]
  constructor
  · rintro ⟨declaration, mem, rejected⟩
    rw [rejectedCallable] at rejected
    cases called : syntaxDeclarationCallableIdentity declaration with
    | none => rw [called] at rejected; cases rejected
    | some other =>
      rw [called] at rejected
      dsimp only at rejected
      split at rejected
      · rename_i fails
        obtain rfl : other = identity := Option.some.inj rejected
        exact ⟨fails.1, fun passes => fails.2.2 (passes fails.2.1 declaration mem called)⟩
      · cases rejected
  · rintro ⟨inside, fails⟩
    simp only [Passes, not_forall] at fails
    obtain ⟨candidate, declaration, mem, called, impure⟩ := fails
    refine ⟨declaration, mem, ?_⟩
    rw [rejectedCallable, called]
    dsimp only
    rw [dif_pos ⟨inside, candidate, impure⟩]
    rfl

/-- The inferred callables are the greatest set of asserted callables and candidates that
pass the check against the set itself. -/
theorem infer_isGreatest : IsGreatest {proven : Finset CallableIdentity |
        proven ⊆ explicitCallables module ∪ candidateCallables coreIntrinsicIsPure module ∧
          ∀ identity ∈ proven, Passes coreIntrinsicIsPure module proven identity}
      (inferBodyAvailablePureCallables coreIntrinsicIsPure module) :=
  prune_isGreatest
    (fun subset passes candidate declaration mem called =>
      callableIsPureUnder_mono subset called (passes candidate declaration mem called))
    (mem_rejectedCallables coreIntrinsicIsPure module) _

end greatest

end Terlan.Purity
