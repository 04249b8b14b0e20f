/-
  Traversals over the identities of continuations in native expressions.

  `rewriteContinuationIds` renames identities, `continuationReferences` lists those that it
  renames, and roles are read off every node. The first two pass over the identity that a tail
  call yields under, which the third counts as outward.
-/
import Terlan.NativeIr.NativeExpr

namespace Terlan.NativeIr

open List

variable {δ : Type}

/-! ## Renaming -/

def NativeCallResume.rename (rename : Nat → Nat) (resume : NativeCallResume) : NativeCallResume :=
  { resume with
    calleeContinuationId := rename resume.calleeContinuationId
    continuationId := rename resume.continuationId }

def NativeDynamicCallResume.rename (rename : Nat → Nat) (resume : NativeDynamicCallResume) :
    NativeDynamicCallResume :=
  { resume with
    calleeContinuationId := rename resume.calleeContinuationId
    continuationId := rename resume.continuationId }

section rewriting

variable (rename : Nat → Nat)

mutual

/-- Renames identities and forgets the functions that completions were resolved to. -/
def rewriteContinuationIds : NativeExpr δ → NativeExpr δ
  | .operation operation args => .operation operation (rewriteAll args)
  | .param index => .param index
  | .call function args => .call function (rewriteAll args)
  | .invokeClosure callee args types result =>
    .invokeClosure (rewriteContinuationIds callee) (rewriteAll args) types result
  | .invokeClosureThen callee args types result resumes completion _ values =>
    .invokeClosureThen (rewriteContinuationIds callee) (rewriteAll args) types result
      (resumes.map (·.rename rename)) (rename completion) none (rewriteAll values)
  | .tailCall function args yieldId => .tailCall function (rewriteAll args) yieldId
  | .callThen function args resumes completion _ values =>
    .callThen function (rewriteAll args) (resumes.map (·.rename rename)) (rename completion) none
      (rewriteAll values)
  | .continuationTailCall id args => .continuationTailCall (rename id) (rewriteAll args)
  | .letIn bindings body => .letIn (rewriteAll bindings) (rewriteContinuationIds body)
  | .ifElse clauses => .ifElse (rewriteClauses clauses)
  | .tryRegion region success failure cleanup =>
    .tryRegion (rewriteContinuationIds region) (rewriteContinuationIds success)
      (rewriteContinuationIds failure) (rewriteAll cleanup)
  | .suspend operation arguments id values =>
    .suspend operation (rewriteAll arguments) (rename id) (rewriteAll values)

def rewriteAll : List (NativeExpr δ) → List (NativeExpr δ)
  | [] => []
  | e :: es => rewriteContinuationIds e :: rewriteAll es

def rewriteClauses : List (NativeClause (NativeExpr δ)) → List (NativeClause (NativeExpr δ))
  | [] => []
  | ⟨condition, body⟩ :: clauses =>
    ⟨rewriteContinuationIds condition, rewriteContinuationIds body⟩ :: rewriteClauses clauses

end

@[simp] theorem rewriteAll_eq (es : List (NativeExpr δ)) :
    rewriteAll rename es = es.map (rewriteContinuationIds rename) := by
  induction es with
  | nil => rfl
  | cons e es ih => rw [rewriteAll, ih, map_cons]

@[simp] theorem rewriteClauses_eq (clauses : List (NativeClause (NativeExpr δ))) :
    rewriteClauses rename clauses = clauses.map fun clause =>
      ⟨rewriteContinuationIds rename clause.condition, rewriteContinuationIds rename clause.body⟩ := by
  induction clauses with
  | nil => rfl
  | cons clause clauses ih => rw [rewriteClauses, ih, map_cons]

end rewriting

/-! ## References -/

def NativeCallResume.references (resume : NativeCallResume) : List Nat :=
  [resume.calleeContinuationId, resume.continuationId]

def NativeDynamicCallResume.references (resume : NativeDynamicCallResume) : List Nat :=
  [resume.calleeContinuationId, resume.continuationId]

mutual

def continuationReferences : NativeExpr δ → List Nat
  | .operation _ args | .call _ args | .tailCall _ args _ => referencesOfAll args
  | .param _ => []
  | .invokeClosure callee args _ _ => continuationReferences callee ++ referencesOfAll args
  | .invokeClosureThen callee args _ _ resumes completion _ values =>
    continuationReferences callee ++ resumes.flatMap NativeDynamicCallResume.references ++
      completion :: (referencesOfAll args ++ referencesOfAll values)
  | .callThen _ args resumes completion _ values =>
    resumes.flatMap NativeCallResume.references ++
      completion :: (referencesOfAll args ++ referencesOfAll values)
  | .continuationTailCall id args => id :: referencesOfAll args
  | .letIn bindings body => referencesOfAll bindings ++ continuationReferences body
  | .ifElse clauses => referencesOfClauses clauses
  | .tryRegion region success failure cleanup =>
    continuationReferences region ++ continuationReferences success ++
      continuationReferences failure ++ referencesOfAll cleanup
  | .suspend _ arguments id values => id :: (referencesOfAll arguments ++ referencesOfAll values)

def referencesOfAll : List (NativeExpr δ) → List Nat
  | [] => []
  | e :: es => continuationReferences e ++ referencesOfAll es

def referencesOfClauses : List (NativeClause (NativeExpr δ)) → List Nat
  | [] => []
  | ⟨condition, body⟩ :: clauses =>
    continuationReferences condition ++ continuationReferences body ++ referencesOfClauses clauses

end

@[simp] theorem referencesOfAll_eq (es : List (NativeExpr δ)) :
    referencesOfAll es = es.flatMap continuationReferences := by
  induction es with
  | nil => rfl
  | cons e es ih => rw [referencesOfAll, ih, flatMap_cons]

@[simp] theorem referencesOfClauses_eq (clauses : List (NativeClause (NativeExpr δ))) :
    referencesOfClauses clauses = clauses.flatMap fun clause =>
      continuationReferences clause.condition ++ continuationReferences clause.body := by
  induction clauses with
  | nil => rfl
  | cons clause clauses ih => rw [referencesOfClauses, ih, flatMap_cons]

/-! ## All nodes, and roles -/

mutual

/-- Every subexpression, the expression itself first. -/
def walkNativeExpr : NativeExpr δ → List (NativeExpr δ)
  | .operation operation args => .operation operation args :: walkAll args
  | .param index => [.param index]
  | .call function args => .call function args :: walkAll args
  | .invokeClosure callee args types result =>
    .invokeClosure callee args types result :: (walkNativeExpr callee ++ walkAll args)
  | .invokeClosureThen callee args types result resumes completion function values =>
    .invokeClosureThen callee args types result resumes completion function values ::
      (walkNativeExpr callee ++ walkAll args ++ walkAll values)
  | .tailCall function args yieldId => .tailCall function args yieldId :: walkAll args
  | .callThen function args resumes completion target values =>
    .callThen function args resumes completion target values :: (walkAll args ++ walkAll values)
  | .continuationTailCall id args => .continuationTailCall id args :: walkAll args
  | .letIn bindings body => .letIn bindings body :: (walkAll bindings ++ walkNativeExpr body)
  | .ifElse clauses => .ifElse clauses :: walkClauses clauses
  | .tryRegion region success failure cleanup =>
    .tryRegion region success failure cleanup ::
      (walkNativeExpr region ++ walkNativeExpr success ++ walkNativeExpr failure ++ walkAll cleanup)
  | .suspend operation arguments id values =>
    .suspend operation arguments id values :: (walkAll arguments ++ walkAll values)

def walkAll : List (NativeExpr δ) → List (NativeExpr δ)
  | [] => []
  | e :: es => walkNativeExpr e ++ walkAll es

def walkClauses : List (NativeClause (NativeExpr δ)) → List (NativeExpr δ)
  | [] => []
  | ⟨condition, body⟩ :: clauses =>
    walkNativeExpr condition ++ walkNativeExpr body ++ walkClauses clauses

end

@[simp] theorem walkAll_eq (es : List (NativeExpr δ)) : walkAll es = es.flatMap walkNativeExpr := by
  induction es with
  | nil => rfl
  | cons e es ih => rw [walkAll, ih, flatMap_cons]

@[simp] theorem walkClauses_eq (clauses : List (NativeClause (NativeExpr δ))) :
    walkClauses clauses = clauses.flatMap fun clause =>
      walkNativeExpr clause.condition ++ walkNativeExpr clause.body := by
  induction clauses with
  | nil => rfl
  | cons clause clauses ih => rw [walkClauses, ih, flatMap_cons]

theorem walkNativeExpr_eq (e : NativeExpr δ) :
    walkNativeExpr e = e :: e.parts.flatMap walkNativeExpr := by
  cases e <;> simp [walkNativeExpr, NativeExpr.parts, NativeClause.parts, flatMap_assoc]

/-- Where a tail call parks when the reductions are used up. -/
def NativeExpr.ownYield : NativeExpr δ → List Nat
  | .tailCall _ _ yieldId => yieldId.toList
  | _ => []

def NativeExpr.ownCompletion : NativeExpr δ → List Nat
  | .callThen _ _ _ completion _ _ => [completion]
  | .invokeClosureThen _ _ _ _ _ completion _ _ => [completion]
  | _ => []

def NativeExpr.ownOutward : NativeExpr δ → List Nat
  | .callThen _ _ resumes _ _ _ => resumes.map (·.continuationId)
  | .invokeClosureThen _ _ _ _ resumes _ _ _ => resumes.map (·.continuationId)
  | .suspend _ _ id _ => [id]
  | e => e.ownYield

def yieldReferences (e : NativeExpr δ) : List Nat := (walkNativeExpr e).flatMap NativeExpr.ownYield

/-- How a continuation is come to. -/
structure ContinuationProtocolRole where
  completion : Bool
  outward : Bool
deriving DecidableEq

def continuationProtocolRole (roots : List (NativeExpr δ)) (id : Nat) : ContinuationProtocolRole :=
  let nodes := roots.flatMap walkNativeExpr
  { completion := nodes.any fun e => id ∈ e.ownCompletion
    outward := nodes.any fun e => id ∈ e.ownOutward }

/-! ## Renaming twice, and what it depends on -/

theorem rewriteContinuationIds_comp (f g : Nat → Nat) (e : NativeExpr δ) :
    rewriteContinuationIds f (rewriteContinuationIds g e) = rewriteContinuationIds (f ∘ g) e := by
  induction e using NativeExpr.induction with
  | step e ih =>
    cases e <;> simp_all [rewriteContinuationIds, NativeExpr.parts, NativeClause.parts, or_imp, forall_and,
      NativeCallResume.rename, NativeDynamicCallResume.rename]

variable {f g : Nat → Nat}

theorem NativeCallResume.rename_congr {resume : NativeCallResume}
    (same : ∀ id ∈ resume.references, f id = g id) : resume.rename f = resume.rename g := by
  simp only [references, forall_mem_cons] at same
  rw [rename, rename, same.1, same.2.1]

theorem NativeDynamicCallResume.rename_congr {resume : NativeDynamicCallResume}
    (same : ∀ id ∈ resume.references, f id = g id) : resume.rename f = resume.rename g := by
  simp only [references, forall_mem_cons] at same
  rw [rename, rename, same.1, same.2.1]

theorem continuationReferences_of_part {c e : NativeExpr δ} (mem : c ∈ e.parts) {id : Nat}
    (found : id ∈ continuationReferences c) : id ∈ continuationReferences e := by
  cases e <;> simp only [NativeExpr.parts, mem_append, mem_cons, mem_flatMap,
    NativeClause.parts] at mem <;> simp only [continuationReferences, referencesOfAll_eq,
    referencesOfClauses_eq, mem_append, mem_cons, mem_flatMap] <;> grind

/-- What an expression becomes depends on the new names of its references only. -/
theorem rewriteContinuationIds_congr {e : NativeExpr δ}
    (same : ∀ id ∈ continuationReferences e, f id = g id) :
    rewriteContinuationIds f e = rewriteContinuationIds g e := by
  induction e using NativeExpr.induction with
  | step e ih =>
    have parts : ∀ c ∈ e.parts, rewriteContinuationIds f c = rewriteContinuationIds g c :=
      fun c mem => ih c mem fun id found => same id (continuationReferences_of_part mem found)
    clear ih
    cases e with
    | invokeClosureThen callee args types result resumes completion function values =>
      have edges : resumes.map (·.rename f) = resumes.map (·.rename g) :=
        map_congr_left fun resume mem => NativeDynamicCallResume.rename_congr fun id found =>
          same id (by simp [continuationReferences]; grind)
      have completes := same completion (by simp [continuationReferences])
      simp_all [rewriteContinuationIds, NativeExpr.parts, or_imp, forall_and]
    | callThen function args resumes completion target values =>
      have edges : resumes.map (·.rename f) = resumes.map (·.rename g) :=
        map_congr_left fun resume mem => NativeCallResume.rename_congr fun id found =>
          same id (by simp [continuationReferences]; grind)
      have completes := same completion (by simp [continuationReferences])
      simp_all [rewriteContinuationIds, NativeExpr.parts, or_imp, forall_and]
    | continuationTailCall id args =>
      have tail := same id (by simp [continuationReferences])
      simp_all [rewriteContinuationIds, NativeExpr.parts]
    | suspend operation arguments id values =>
      have parks := same id (by simp [continuationReferences])
      simp_all [rewriteContinuationIds, NativeExpr.parts, or_imp, forall_and]
    | _ => simp_all [rewriteContinuationIds, NativeExpr.parts, NativeClause.parts, or_imp, forall_and]

/-- A list read off each expression, where renaming maps it. -/
theorem flatMap_rewrite {β : Type} {g : NativeExpr δ → List β} {h : β → β} {f : Nat → Nat}
    {es : List (NativeExpr δ)} (each : ∀ c ∈ es, g (rewriteContinuationIds f c) = (g c).map h) :
    (rewriteAll f es).flatMap g = (es.flatMap g).map h := by
  rw [rewriteAll_eq, flatMap_map, map_flatMap]
  exact flatMap_congr each

theorem flatMap_rewriteClauses {β : Type} {g : NativeExpr δ → List β} {h : β → β} {f : Nat → Nat}
    {clauses : List (NativeClause (NativeExpr δ))}
    (each : ∀ c ∈ clauses.flatMap NativeClause.parts, g (rewriteContinuationIds f c) = (g c).map h) :
    ((rewriteClauses f clauses).flatMap fun clause => g clause.condition ++ g clause.body) =
      (clauses.flatMap fun clause => g clause.condition ++ g clause.body).map h := by
  rw [rewriteClauses_eq, flatMap_map, map_flatMap]
  refine flatMap_congr fun clause mem => ?_
  have parts : ∀ c ∈ clause.parts, g (rewriteContinuationIds f c) = (g c).map h :=
    fun c found => each c (mem_flatMap.mpr ⟨clause, mem, found⟩)
  simp only [NativeClause.parts, forall_mem_cons] at parts
  rw [map_append, parts.1, parts.2.1]

theorem continuationReferences_rewrite (f : Nat → Nat) (e : NativeExpr δ) :
    continuationReferences (rewriteContinuationIds f e) = (continuationReferences e).map f := by
  induction e using NativeExpr.induction with
  | step e ih =>
    cases e with
    | param index => rfl
    | operation operation args | call function args | tailCall function args yieldId
    | continuationTailCall id args =>
      have each : (rewriteAll f args).flatMap continuationReferences = _ := flatMap_rewrite ih
      simp only [rewriteContinuationIds, continuationReferences, referencesOfAll_eq, each,
        map_cons]
    | invokeClosure callee args types result =>
      obtain ⟨hc, ha⟩ := forall_mem_cons.mp ih
      simp only [rewriteContinuationIds, continuationReferences, referencesOfAll_eq, hc,
        flatMap_rewrite ha, map_append]
    | invokeClosureThen callee args types result resumes completion function values =>
      obtain ⟨hc, rest⟩ := forall_mem_cons.mp ih
      obtain ⟨ha, hv⟩ := forall_mem_append.mp rest
      have edges : (resumes.map (·.rename f)).flatMap NativeDynamicCallResume.references =
          (resumes.flatMap NativeDynamicCallResume.references).map f := by
        rw [flatMap_map, map_flatMap]
        rfl
      simp only [rewriteContinuationIds, continuationReferences, referencesOfAll_eq, hc, edges,
        flatMap_rewrite ha, flatMap_rewrite hv, map_append, map_cons]
    | callThen function args resumes completion target values =>
      obtain ⟨ha, hv⟩ := forall_mem_append.mp ih
      have edges : (resumes.map (·.rename f)).flatMap NativeCallResume.references =
          (resumes.flatMap NativeCallResume.references).map f := by
        rw [flatMap_map, map_flatMap]
        rfl
      simp only [rewriteContinuationIds, continuationReferences, referencesOfAll_eq, edges,
        flatMap_rewrite ha, flatMap_rewrite hv, map_append, map_cons]
    | letIn bindings body =>
      obtain ⟨hb, h⟩ := forall_mem_append.mp ih
      simp only [rewriteContinuationIds, continuationReferences, referencesOfAll_eq,
        flatMap_rewrite hb, h body (mem_singleton_self body), map_append]
    | ifElse clauses =>
      have each := flatMap_rewriteClauses ih
      simpa only [rewriteContinuationIds, continuationReferences, referencesOfClauses_eq] using each
    | tryRegion region success failure cleanup =>
      obtain ⟨first, hc⟩ := forall_mem_append.mp ih
      simp only [forall_mem_cons] at first
      simp only [rewriteContinuationIds, continuationReferences, referencesOfAll_eq, first,
        flatMap_rewrite hc, map_append]
    | suspend operation arguments id values =>
      obtain ⟨ha, hv⟩ := forall_mem_append.mp ih
      simp only [rewriteContinuationIds, continuationReferences, referencesOfAll_eq,
        flatMap_rewrite ha, flatMap_rewrite hv, map_append, map_cons]

theorem parts_rewrite (f : Nat → Nat) (e : NativeExpr δ) :
    (rewriteContinuationIds f e).parts = e.parts.map (rewriteContinuationIds f) := by
  cases e <;> simp [rewriteContinuationIds, NativeExpr.parts, NativeClause.parts,
    flatMap_map, map_flatMap]

theorem walkNativeExpr_rewrite (f : Nat → Nat) (e : NativeExpr δ) :
    walkNativeExpr (rewriteContinuationIds f e) =
      (walkNativeExpr e).map (rewriteContinuationIds f) := by
  induction e using NativeExpr.induction with
  | step e ih =>
    rw [walkNativeExpr_eq, walkNativeExpr_eq e, parts_rewrite, flatMap_map, map_cons,
      map_flatMap]
    exact congrArg _ (flatMap_congr ih)

theorem yieldReferences_rewrite (f : Nat → Nat) (e : NativeExpr δ) :
    yieldReferences (rewriteContinuationIds f e) = yieldReferences e := by
  have own : ∀ node : NativeExpr δ, (rewriteContinuationIds f node).ownYield = node.ownYield := by
    intro node
    cases node <;> rfl
  simp only [yieldReferences, walkNativeExpr_rewrite, flatMap_map, own]

end Terlan.NativeIr
