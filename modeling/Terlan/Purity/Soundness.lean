/-
  The inference is sound exactly when the check finds an effect in the callables that can
  execute one and in no others: then the inferred callables are the greatest pure set, whatever
  the order of the declarations, and no execution of one of them executes an effect.
-/
import Terlan.Purity.Semantics

namespace Terlan.Purity

open Terlan.Syntax List

variable {coreIntrinsicIsPure : String → String → Nat → Bool}
  {admits : Set String → SyntaxExprOutput → Prop} {external : CallableIdentity → Prop} {module : SyntaxModuleOutput} {proven : Finset CallableIdentity}

/-! ## Executions of a pure set -/

/-- Work that leads to nothing but calls of members. -/
def Harmless (admits : Set String → SyntaxExprOutput → Prop)
    (external : CallableIdentity → Prop) (module : SyntaxModuleOutput)
    (proven : Finset CallableIdentity) : Pending → Prop
  | .evaluate locals e => ∀ op, Performs admits external module locals e op → Allowed proven op
  | .operate op => Allowed proven op

section

variable (pure : PureSet coreIntrinsicIsPure admits external module proven)
include pure

theorem harmless_of_unfolds
    {item next : Pending} (unfolds : Unfolds coreIntrinsicIsPure admits external module item next)
    (harmless : Harmless admits external module proven item) : Harmless admits external module proven next := by
  cases unfolds with
  | own runs operates => exact harmless _ (.own runs operates)
  | part runs evaluates admitted =>
    exact fun op performs => harmless op (.part runs evaluates admitted performs)
  | @enter identity declaration locals e mem called candidate entry admitted =>
    intro op performs
    obtain asserted | ⟨_, allowed⟩ := (pure identity harmless).2 declaration mem called
    · simp [isCandidate, asserted] at candidate
    · exact allowed op ⟨locals, e, entry, admitted, performs⟩
  | @withoutBody identity declaration mem called notAsserted notCandidate =>
    obtain asserted | ⟨candidate, _⟩ := (pure identity harmless).2 declaration mem called
    · rw [notAsserted] at asserted; cases asserted
    · rw [notCandidate] at candidate; cases candidate

/-- A step from harmless work executes only a call of a member, and leaves harmless work. -/
theorem harmless_of_step {work after : List Pending} {label : Option Operation}
    (step : Step coreIntrinsicIsPure admits external module work label after)
    (harmless : ∀ item ∈ work, Harmless admits external module proven item) :
    (∀ op ∈ label, Allowed proven op) ∧ ∀ item ∈ after, Harmless admits external module proven item := by
  cases step with
  | evaluate unfolds =>
    obtain ⟨first, rest⟩ := forall_mem_cons.mp harmless
    refine ⟨fun op mem => (Option.not_mem_none op mem).elim, forall_mem_append.mpr ⟨?_, rest⟩⟩
    exact fun item mem => harmless_of_unfolds pure (unfolds item mem) first
  | operate unfolds =>
    obtain ⟨first, rest⟩ := forall_mem_cons.mp harmless
    refine ⟨fun op mem => ?_, forall_mem_append.mpr ⟨?_, rest⟩⟩
    · obtain rfl := Option.mem_some_iff.mp mem
      exact first
    · exact fun item mem => harmless_of_unfolds pure (unfolds item mem) first
  | unwind count =>
    exact ⟨fun op mem => (Option.not_mem_none op mem).elim,
      fun item mem => harmless item (mem_of_mem_drop mem)⟩

/-- A run from harmless work executes only calls of members. -/
theorem harmless_of_runs {start work : List Pending} {executed : List Operation}
    (runs : Runs coreIntrinsicIsPure admits external module start executed work)
    (harmless : ∀ item ∈ start, Harmless admits external module proven item) :
    (∀ op ∈ executed, Allowed proven op) ∧ ∀ item ∈ work, Harmless admits external module proven item := by
  induction runs with
  | start => exact ⟨forall_mem_nil _, harmless⟩
  | quiet _ step ih => exact ⟨ih.1, (harmless_of_step pure step ih.2).2⟩
  | acts _ step ih =>
    obtain ⟨label, after⟩ := harmless_of_step pure step ih.2
    exact ⟨forall_mem_cons.mpr ⟨label _ rfl, ih.1⟩, after⟩

/-- Executing a callable of a pure set executes no effect. -/
theorem executesNoEffect_of_pureSet :
    ExecutesNoEffect coreIntrinsicIsPure admits external module proven := by
  intro identity mem executed work runs op inside effect
  have start : ∀ item ∈ [Pending.operate (.call identity)], Harmless admits external module proven item :=
    forall_mem_singleton.mpr mem
  obtain ⟨member, _, rfl⟩ := ((harmless_of_runs pure runs start).1 op inside).exists_call
  exact effect

end

/-! ## The check against the executions -/

variable {identity : CallableIdentity}

theorem mem_explicitCallables :
    identity ∈ explicitCallables module ↔ ∃ declaration ∈ module.declarations,
      declarationHasPureAnnotation declaration = true ∧
        syntaxDeclarationCallableIdentity declaration = some identity := by
  simp only [explicitCallables, mem_toFinset, mem_filterMap, mem_filter, and_assoc]

theorem mem_candidateCallables :
    identity ∈ candidateCallables coreIntrinsicIsPure module ↔ ∃ declaration ∈ module.declarations,
      isCandidate coreIntrinsicIsPure module declaration = true ∧
        syntaxDeclarationCallableIdentity declaration = some identity := by
  simp only [candidateCallables, mem_toFinset, mem_filterMap, mem_filter, and_assoc]

theorem declares_of_mem
    (mem : identity ∈ explicitCallables module ∪ candidateCallables coreIntrinsicIsPure module) :
    Declares module identity := by
  obtain asserted | candidate := Finset.mem_union.mp mem
  · obtain ⟨declaration, inside, _, called⟩ := mem_explicitCallables.mp asserted
    exact ⟨declaration, inside, called⟩
  · obtain ⟨declaration, inside, _, called⟩ := mem_candidateCallables.mp candidate
    exact ⟨declaration, inside, called⟩

theorem isCandidate_not_asserted {declaration : SyntaxDeclarationOutput}
    (candidate : isCandidate coreIntrinsicIsPure module declaration = true) :
    declarationHasPureAnnotation declaration = false := by
  simp only [isCandidate, Bool.and_eq_true, Bool.not_eq_true'] at candidate
  exact candidate.1.1

/-! ## Order of declarations -/

/-- The inferred set depends only on which declarations there are. -/
theorem infer_eq_of_perm {declarations : List SyntaxDeclarationOutput}
    (perm : declarations.Perm module.declarations) :
    inferBodyAvailablePureCallables coreIntrinsicIsPure { module with declarations } =
      inferBodyAvailablePureCallables coreIntrinsicIsPure module := by
  have asserted : explicitCallables { module with declarations } = explicitCallables module := by
    ext identity
    rw [mem_explicitCallables, mem_explicitCallables]
    exact exists_congr fun declaration => and_congr_left fun _ => perm.mem_iff
  have candidates : candidateCallables coreIntrinsicIsPure { module with declarations } =
      candidateCallables coreIntrinsicIsPure module := by
    ext identity
    rw [mem_candidateCallables, mem_candidateCallables]
    exact exists_congr fun declaration => and_congr_left fun _ => perm.mem_iff
  have greatest := infer_isGreatest coreIntrinsicIsPure { module with declarations }
  refine greatest.unique ?_
  convert infer_isGreatest coreIntrinsicIsPure module using 1
  ext proven
  simp only [Set.mem_ofPred_eq, asserted, candidates, Passes]
  refine and_congr_right fun _ => forall₂_congr fun identity _ => forall_congr' fun _ => ?_
  exact forall_congr' fun declaration => by rw [perm.mem_iff]

/-! ## What the check finds and what executions do -/

/-- The check can find an effect in a callable: it meets one there, or it meets the call of a
callable where it can find one. It takes a callable without an accepted body to act. -/
inductive Refuted (coreIntrinsicIsPure : String → String → Nat → Bool)
    (module : SyntaxModuleOutput) : CallableIdentity → Prop
  | unknown {identity : CallableIdentity} :
      identity ∉ explicitCallables module ∪ candidateCallables coreIntrinsicIsPure module →
      Refuted coreIntrinsicIsPure module identity
  | effect {identity : CallableIdentity} {declaration : SyntaxDeclarationOutput} {op : Operation} :
      identity ∈ candidateCallables coreIntrinsicIsPure module → declaration ∈ module.declarations →
      syntaxDeclarationCallableIdentity declaration = some identity →
      DeclarationSees module declaration op → op.IsEffect → Refuted coreIntrinsicIsPure module identity
  | call {identity other : CallableIdentity} {declaration : SyntaxDeclarationOutput} :
      identity ∈ candidateCallables coreIntrinsicIsPure module → declaration ∈ module.declarations →
      syntaxDeclarationCallableIdentity declaration = some identity →
      DeclarationSees module declaration (.call other) → Refuted coreIntrinsicIsPure module other →
      Refuted coreIntrinsicIsPure module identity

/-- Executions of a callable can execute an effect: its own, or one of a callable that it
calls. -/
inductive Acts (coreIntrinsicIsPure : String → String → Nat → Bool)
    (admits : Set String → SyntaxExprOutput → Prop)
    (external : CallableIdentity → Prop) (module : SyntaxModuleOutput) : CallableIdentity → Prop
  | undeclared {identity : CallableIdentity} : ¬ Declares module identity →
      Acts coreIntrinsicIsPure admits external module identity
  | withoutBody {identity : CallableIdentity} {declaration : SyntaxDeclarationOutput} :
      declaration ∈ module.declarations →
      syntaxDeclarationCallableIdentity declaration = some identity →
      declarationHasPureAnnotation declaration = false →
      isCandidate coreIntrinsicIsPure module declaration = false →
      Acts coreIntrinsicIsPure admits external module identity
  | effect {identity : CallableIdentity} {declaration : SyntaxDeclarationOutput} {op : Operation} :
      declaration ∈ module.declarations →
      syntaxDeclarationCallableIdentity declaration = some identity →
      isCandidate coreIntrinsicIsPure module declaration = true →
      DeclarationPerforms admits external module declaration op → op.IsEffect →
      Acts coreIntrinsicIsPure admits external module identity
  | call {identity other : CallableIdentity} {declaration : SyntaxDeclarationOutput} :
      declaration ∈ module.declarations →
      syntaxDeclarationCallableIdentity declaration = some identity →
      isCandidate coreIntrinsicIsPure module declaration = true →
      DeclarationPerforms admits external module declaration (.call other) →
      Acts coreIntrinsicIsPure admits external module other →
      Acts coreIntrinsicIsPure admits external module identity

theorem Operation.isEffect_or_call (op : Operation) : op.IsEffect ∨ ∃ identity, op = .call identity := by
  cases op with
  | call identity => exact .inr ⟨identity, rfl⟩
  | effect kind | nativeValue | functionValue name | unproven | withoutBody identity =>
    exact .inl trivial

variable {op : Operation}

theorem not_allowed_of_isEffect (effect : op.IsEffect) : ¬ Allowed proven op := by
  intro allowed
  obtain ⟨identity, _, rfl⟩ := allowed.exists_call
  exact effect

/-- The inferred callables are those where the check can find no effect. -/
theorem mem_infer_iff (identity : CallableIdentity) :
    identity ∈ inferBodyAvailablePureCallables coreIntrinsicIsPure module ↔
      ¬ Refuted coreIntrinsicIsPure module identity := by
  have greatest := infer_isGreatest coreIntrinsicIsPure module
  constructor
  · intro mem refuted
    have declared : ∀ other ∈ inferBodyAvailablePureCallables coreIntrinsicIsPure module,
        Declares module other := fun other inside => declares_of_mem (greatest.1.1 inside)
    induction refuted with
    | unknown absent => exact absent (greatest.1.1 mem)
    | effect candidate inside called sees effect =>
      have check := greatest.1.2 _ mem candidate _ inside called
      exact not_allowed_of_isEffect effect ((callableIsPureUnder_iff_sees called declared).mp check _ sees)
    | call candidate inside called sees _ ih =>
      have check := greatest.1.2 _ mem candidate _ inside called
      exact ih ((callableIsPureUnder_iff_sees called declared).mp check _ sees)
  · classical
    intro unrefuted
    have base : ∀ other, ¬ Refuted coreIntrinsicIsPure module other →
        other ∈ explicitCallables module ∪ candidateCallables coreIntrinsicIsPure module :=
      fun other spared => not_not.mp fun absent => spared (.unknown absent)
    have kept : (explicitCallables module ∪ candidateCallables coreIntrinsicIsPure module).filter
        (fun other => ¬ Refuted coreIntrinsicIsPure module other) ⊆
        inferBodyAvailablePureCallables coreIntrinsicIsPure module := by
      refine greatest.2 ⟨Finset.filter_subset _ _, ?_⟩
      intro other mem candidate declaration inside called
      obtain ⟨_, spared⟩ := Finset.mem_filter.mp mem
      refine (callableIsPureUnder_iff_sees called fun third third_mem =>
        declares_of_mem (Finset.mem_filter.mp third_mem).1).mpr fun op sees => ?_
      obtain effect | ⟨third, rfl⟩ := op.isEffect_or_call
      · exact (spared (.effect candidate inside called sees effect)).elim
      · have unrefuted : ¬ Refuted coreIntrinsicIsPure module third :=
          fun refuted => spared (.call candidate inside called sees refuted)
        exact Finset.mem_filter.mpr ⟨base third unrefuted, unrefuted⟩
    exact kept (Finset.mem_filter.mpr ⟨base identity unrefuted, unrefuted⟩)

section acts

variable {identity : CallableIdentity}

theorem not_acts_of_pureSet (pure : PureSet coreIntrinsicIsPure admits external module proven)
    (mem : identity ∈ proven) : ¬ Acts coreIntrinsicIsPure admits external module identity := by
  intro acts
  induction acts with
  | undeclared absent => exact absent (pure _ mem).1
  | withoutBody inside called notAsserted notCandidate =>
    obtain asserted | ⟨candidate, _⟩ := (pure _ mem).2 _ inside called
    · rw [notAsserted] at asserted; cases asserted
    · rw [notCandidate] at candidate; cases candidate
  | effect inside called candidate performs effect =>
    obtain asserted | ⟨_, allowed⟩ := (pure _ mem).2 _ inside called
    · rw [isCandidate_not_asserted candidate] at asserted; cases asserted
    · exact not_allowed_of_isEffect effect (allowed _ performs)
  | call inside called candidate performs _ ih =>
    obtain asserted | ⟨_, allowed⟩ := (pure _ mem).2 _ inside called
    · rw [isCandidate_not_asserted candidate] at asserted; cases asserted
    · exact ih (allowed _ performs)

/-- The members of a set whose complement acts, of callables that do not act, form a pure set. -/
theorem pureSet_of_not_acts
    (spared : ∀ identity, identity ∈ proven ↔ ¬ Acts coreIntrinsicIsPure admits external module identity) :
    PureSet coreIntrinsicIsPure admits external module proven := by
  intro identity mem
  have quiet := (spared identity).mp mem
  refine ⟨not_not.mp fun absent => quiet (.undeclared absent), fun declaration inside called => ?_⟩
  cases asserted : declarationHasPureAnnotation declaration with
  | true => exact .inl rfl
  | false =>
    cases candidate : isCandidate coreIntrinsicIsPure module declaration with
    | false => exact (quiet (.withoutBody inside called asserted candidate)).elim
    | true =>
      refine .inr ⟨rfl, fun op performs => ?_⟩
      obtain effect | ⟨other, rfl⟩ := op.isEffect_or_call
      · exact (quiet (.effect inside called candidate performs effect)).elim
      · exact (spared other).mpr fun acts => quiet (.call inside called candidate performs acts)

variable (coreIntrinsicIsPure admits external module) in
theorem exists_finset_not_acts : ∃ quiet : Finset CallableIdentity, ∀ identity,
    identity ∈ quiet ↔ ¬ Acts coreIntrinsicIsPure admits external module identity := by
  classical
  refine ⟨(module.declarations.filterMap syntaxDeclarationCallableIdentity).toFinset.filter
    fun identity => ¬ Acts coreIntrinsicIsPure admits external module identity, fun identity => ?_⟩
  refine ⟨fun mem => (Finset.mem_filter.mp mem).2, fun quiet => Finset.mem_filter.mpr ⟨?_, quiet⟩⟩
  have declared : Declares module identity := not_not.mp fun absent => quiet (.undeclared absent)
  obtain ⟨declaration, inside, called⟩ := declared
  exact mem_toFinset.mpr (mem_filterMap.mpr ⟨declaration, inside, called⟩)

end acts

/-! ## The inference -/

/-- The inferred callables are the greatest pure set, the order of the declarations does not
matter, and no execution of an inferred callable executes an effect. -/
def SoundInference (coreIntrinsicIsPure : String → String → Nat → Bool)
    (admits : Set String → SyntaxExprOutput → Prop)
    (external : CallableIdentity → Prop) (module : SyntaxModuleOutput) : Prop :=
  IsGreatest {proven : Finset CallableIdentity | PureSet coreIntrinsicIsPure admits external module proven}
      (inferBodyAvailablePureCallables coreIntrinsicIsPure module) ∧
    (∀ declarations : List SyntaxDeclarationOutput, declarations.Perm module.declarations →
      inferBodyAvailablePureCallables coreIntrinsicIsPure { module with declarations } =
        inferBodyAvailablePureCallables coreIntrinsicIsPure module) ∧
    ExecutesNoEffect coreIntrinsicIsPure admits external module
      (inferBodyAvailablePureCallables coreIntrinsicIsPure module)

theorem soundInference_of_isGreatest (greatest : IsGreatest {proven : Finset CallableIdentity |
        PureSet coreIntrinsicIsPure admits external module proven}
      (inferBodyAvailablePureCallables coreIntrinsicIsPure module)) :
    SoundInference coreIntrinsicIsPure admits external module :=
  ⟨greatest, fun _ perm => infer_eq_of_perm perm, executesNoEffect_of_pureSet greatest.1⟩

namespace Shadowed

def name (text : String) : SyntaxExprOutput :=
  .node ⟨.var, 0, some text, none, none, none, [], [], []⟩ [] [] [] [] [] none []

def param (text : String) : SyntaxPatternOutput := .node .var 0 (some text) [] []

/-- `normalize(value: Int): Int -> value.` -/
def normalize : SyntaxDeclarationOutput where
  annotations := []
  payload := .function "normalize" [⟨"value", none⟩] [⟨[param "value"], none, name "value"⟩]

/-- `normalize(value)`, in the scope of a parameter `normalize`. -/
def call : SyntaxExprOutput :=
  .node ⟨.call, 1, none, none, none, none, [], [], []⟩ [name "normalize", name "value"] [] [] [] [] none []

/-- `apply(normalize: (Int) -> Int, value: Int): Int -> normalize(value).` -/
def apply : SyntaxDeclarationOutput where
  annotations := []
  payload := .function "apply" [⟨"normalize", none⟩, ⟨"value", none⟩]
    [⟨[param "normalize", param "value"], none, call⟩]

def effects : SyntaxModuleOutput := ⟨"provider.Effects", [normalize, apply]⟩

def claimed : Finset CallableIdentity := {("normalize", 1), ("apply", 2)}

end Shadowed

end Terlan.Purity
