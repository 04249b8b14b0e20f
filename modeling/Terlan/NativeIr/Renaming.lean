/-
  Runs under renamed identities of continuations. A program whose bodies are rewritten by a
  renaming does what the original does, step for step and up to the renaming, as long as the
  identities that tail calls yield under keep their names and no call is passed by a callee
  whose new name is looked up to another edge.
-/
import Terlan.Lib.Simulation
import Terlan.NativeIr.NativeRun

namespace Terlan.NativeIr

open Terlan.Lib Stop List

variable {δ V F σ : Type}

/-! ## Translations -/

def Parked.rename (c : Nat → Nat) (parked : Parked V) : Parked V :=
  { parked with
    id := c parked.id
    frames := parked.frames.map fun frame => (c frame.1, frame.2) }

def Stop.rename (c : Nat → Nat) : Stop V F → Stop V F
  | .parked callee => .parked (callee.rename c)
  | stop => stop

def Event.rename (c : Nat → Nat) : Event V → Event V
  | .entered id args => .entered (c id) args
  | .wrapped edges id => .wrapped (edges.map (·.rename c)) (c id)

def World.rename (c : Nat → Nat) (w : World V σ) : World V σ :=
  { w with events := w.events.map (Event.rename c) }

def Entry.rename (c : Nat → Nat) : Entry → Entry
  | .function index => .function index
  | .continuation id => .continuation (c id)

/-- The first edge for a callee under its new name agrees with the first under its old name. -/
def EdgesAgree (c : Nat → Nat) (edges : List NativeCallResume) (id : Nat) : Prop :=
  match edges.find? fun edge => edge.calleeContinuationId = id with
  | none => ∀ edge ∈ edges, c edge.calleeContinuationId ≠ c id
  | some first => ∀ edge ∈ edges, c edge.calleeContinuationId = c id →
      edge.calleeCaptureCount = first.calleeCaptureCount ∧
        edge.callerValueStart = first.callerValueStart ∧
          if first.continuationId = first.calleeContinuationId then
            c edge.continuationId = c edge.calleeContinuationId
          else c edge.continuationId ≠ c edge.calleeContinuationId ∧
            c edge.continuationId = c first.continuationId

def Event.Agrees (c : Nat → Nat) : Event V → Prop
  | .entered _ _ => True
  | .wrapped edges id => EdgesAgree c edges id

/-- A method does what another does up to a renaming, in runs whose calls all agree. -/
abbrev Renamed (c : Nat → Nat) {α : Type} (onResult : α → α) (m m' : Running V F σ α) : Prop :=
  Simulates World.events (Event.Agrees c) (World.rename c) (rename c) onResult m m'

/-- One program is another under a renaming. -/
structure Renames (c : Nat → Nat) (program program' : NativeProgram δ) : Prop where
  functions : program'.functions = program.functions.map (rewriteContinuationIds c)
  body : ∀ id, program'.body (c id) = (program.body id).map (rewriteContinuationIds c)
  arity : ∀ id, program'.arity (c id) = program.arity id
  yields : ∀ body ∈ program.bodies, ∀ y ∈ yieldReferences body, c y = y

/-! ## Edges -/

variable {c : Nat → Nat}

theorem find?_rename {edges : List NativeCallResume} {id : Nat} (agree : EdgesAgree c edges id) :
    (edges.find? (fun edge => edge.calleeContinuationId = id) = none ∧
      (edges.map (·.rename c)).find? (fun edge => edge.calleeContinuationId = c id) = none) ∨
    ∃ first next, edges.find? (fun edge => edge.calleeContinuationId = id) = some first ∧
      (edges.map (·.rename c)).find? (fun edge => edge.calleeContinuationId = c id) = some next ∧
        next.calleeCaptureCount = first.calleeCaptureCount ∧
          next.callerValueStart = first.callerValueStart ∧
            (next.continuationId = next.calleeContinuationId ↔
              first.continuationId = first.calleeContinuationId) ∧
              (first.continuationId ≠ first.calleeContinuationId →
                next.continuationId = c first.continuationId) := by
  unfold EdgesAgree at agree
  cases old : edges.find? fun edge => edge.calleeContinuationId = id with
  | none =>
    rw [old] at agree
    refine .inl ⟨rfl, find?_eq_none.mpr fun edge mem found => ?_⟩
    obtain ⟨source, memSource, rfl⟩ := mem_map.mp mem
    exact agree source memSource (of_decide_eq_true found)
  | some first =>
    rw [old] at agree
    have mem := mem_of_find?_eq_some old
    have isFirst := find?_some old
    simp only [decide_eq_true_eq] at isFirst
    cases new : (edges.map (·.rename c)).find? fun edge => edge.calleeContinuationId = c id with
    | none =>
      have absent := find?_eq_none.mp new _ (mem_map_of_mem mem)
      exact absurd (decide_eq_true (congrArg c isFirst)) absent
    | some next =>
      obtain ⟨source, memSource, rfl⟩ := mem_map.mp (mem_of_find?_eq_some new)
      have named := find?_some new
      simp only [decide_eq_true_eq] at named
      obtain ⟨count, start, leads⟩ := agree source memSource named
      refine .inr ⟨first, _, rfl, rfl, count, start, ?_, ?_⟩
      · by_cases forwards : first.continuationId = first.calleeContinuationId
        · rw [if_pos forwards] at leads
          exact ⟨fun _ => forwards, fun _ => leads⟩
        · rw [if_neg forwards] at leads
          exact ⟨fun same => absurd same leads.1, fun same => absurd same forwards⟩
      · intro forwards
        rw [if_neg forwards] at leads
        exact leads.2

/-! ## Operands -/

theorem asOperand_rename (stop : Stop V F) :
    (stop.rename c).asOperand = rename c stop.asOperand := by
  cases stop <;> rfl

theorem emit_renamed {α : Type} {onResult : α → α} (event : Event V) {m m' : Running V F σ α}
    (rest : event.Agrees c → Renamed c onResult m m') (grows : Extends World.events m) :
    Renamed c onResult (emit event >>= fun _ => m) (emit (event.rename c) >>= fun _ => m') :=
  .note (fun _ => rfl) (fun _ => rfl) rest grows

theorem ofRuntime_renamed {α : Type} (f : σ → σ × Except F α) :
    Renamed c id (ofRuntime f : Running V F σ α) (ofRuntime f) := by
  refine .ofCall (fun _ => suffix_refl _) fun w => ?_
  show _ = (World.rename c _, mapOutcome (rename c) id _)
  cases ran : (f w.runtime).2 with
  | error e => simp [World.rename, mapOutcome, ran, Except.mapError, Except.map, rename]
  | ok a => simp [World.rename, mapOutcome, ran, Except.mapError, Except.map]

theorem fail_renamed {α : Type} {onResult : α → α} (failure : Failure F) :
    Renamed c onResult (fail failure : Running V F σ α) (fail failure) :=
  .throw (Stop.failed failure)

theorem mapOutcome_id (c : Nat → Nat) (outcome : Except (Stop V F) V) :
    mapOutcome (rename c) id outcome = outcome.mapError (rename c) := by
  cases outcome <;> rfl

section operands

variable (R : NativeRuntime δ V F σ) {enter enter' : Entry → List V → Running V F σ V}
  (entering : ∀ entry args, Renamed c id (enter entry args) (enter' (entry.rename c) args))

/-- An operand does the same after rewriting. -/
def EvaluateRenamed (R : NativeRuntime δ V F σ) (enter enter' : Entry → List V → Running V F σ V)
    (c : Nat → Nat) (e : NativeExpr δ) : Prop :=
  ∀ env, Renamed c id (evaluate R enter e env) (evaluate R enter' (rewriteContinuationIds c e) env)

theorem evaluateAll_renamed {es : List (NativeExpr δ)}
    (each : ∀ e ∈ es, EvaluateRenamed R enter enter' c e) (env : List V) :
    Renamed c id (evaluateAll R enter es env)
      (evaluateAll R enter' (es.map (rewriteContinuationIds c)) env) := by
  induction es with
  | nil => exact .pure _
  | cons e es ih =>
    obtain ⟨first, rest⟩ := forall_mem_cons.mp each
    exact .bind (first env) fun value => .bind (ih rest) fun values => .pure (value :: values)

theorem evaluateBindings_renamed {es : List (NativeExpr δ)}
    (each : ∀ e ∈ es, EvaluateRenamed R enter enter' c e) (env : List V) :
    Renamed c id (evaluateBindings R enter es env)
      (evaluateBindings R enter' (es.map (rewriteContinuationIds c)) env) := by
  induction es generalizing env with
  | nil => exact .pure _
  | cons e es ih =>
    obtain ⟨first, rest⟩ := forall_mem_cons.mp each
    exact .bind (first env) fun value => ih rest (env ++ [value])

theorem evaluateClauses_renamed {clauses : List (NativeClause (NativeExpr δ))}
    (each : ∀ e ∈ clauses.flatMap NativeClause.parts, EvaluateRenamed R enter enter' c e)
    (env : List V) : Renamed c id (evaluateClauses R enter clauses env)
      (evaluateClauses R enter' (rewriteClauses c clauses) env) := by
  induction clauses with
  | nil => exact fail_renamed _
  | cons clause clauses ih =>
    rw [flatMap_cons] at each
    obtain ⟨first, rest⟩ := forall_mem_append.mp each
    simp only [NativeClause.parts, forall_mem_cons] at first
    refine .bind (first.1 env) fun value => ?_
    show Renamed c id (if R.isTrue value then _ else _) (if R.isTrue value then _ else _)
    split
    · exact first.2.1 env
    · exact ih rest

include entering in
theorem invoke_renamed (callee : V) (args : List V) (types : List NativeType) (result : NativeType) :
    Renamed c (fun outcome => (outcome.1, mapOutcome (rename c) id outcome.2))
      (invoke R enter callee args types result) (invoke R enter' callee args types result) := by
  refine .bind (ofRuntime_renamed _) fun target => ?_
  exact .bind (.attempt (entering (.function target.2.1) target.2.2)) fun outcome =>
    .pure (target.1, outcome)

theorem selectTry_renamed {recover recover' : Failure F → Running V F σ V}
    (recovers : ∀ failure, Renamed c id (recover failure) (recover' failure))
    (selected : Except (Stop V F) V) :
    Renamed c (mapOutcome (rename c) id) (selectTry selected recover)
      (selectTry (mapOutcome (rename c) id selected) recover') := by
  cases selected with
  | ok value => exact .pure (Except.ok value)
  | error stop =>
    cases stop with
    | failed failure => exact .attempt (recovers failure)
    | parked callee => exact .pure (Except.error (Stop.parked callee))
    | exhausted => exact .pure (Except.error exhausted)

theorem finishTry_renamed {cleanup cleanup' : Running V F σ (List V)}
    (cleans : Renamed c id cleanup cleanup') (selected : Except (Stop V F) V) :
    Renamed c id (finishTry selected cleanup)
      (finishTry (mapOutcome (rename c) id selected) cleanup') := by
  cases selected with
  | ok value => exact .bind cleans fun _ => .lift (Except.ok value)
  | error stop =>
    cases stop with
    | failed failure => exact .bind cleans fun _ => .lift (Except.error (Stop.failed failure))
    | parked callee => exact .bind cleans fun _ => .lift (Except.error (Stop.parked callee))
    | exhausted => exact .throw exhausted

include entering in
theorem evaluate_renamed (e : NativeExpr δ) : EvaluateRenamed R enter enter' c e := by
  induction e using NativeExpr.induction with
  | step e ih =>
    intro env
    cases e with
    | operation operation args =>
      simp only [rewriteContinuationIds, rewriteAll_eq, evaluate]
      exact .bind (evaluateAll_renamed R ih env) fun values => ofRuntime_renamed _
    | param index =>
      simp only [rewriteContinuationIds, evaluate]
      split
      · exact .pure _
      · exact fail_renamed _
    | call function args =>
      simp only [rewriteContinuationIds, rewriteAll_eq, evaluate]
      exact .bind (evaluateAll_renamed R ih env) fun values =>
        .mapError (entering (.function function) values) asOperand_rename
    | invokeClosure callee args types result =>
      obtain ⟨hc, ha⟩ := forall_mem_cons.mp ih
      simp only [rewriteContinuationIds, rewriteAll_eq, evaluate]
      refine .bind (hc env) fun target => .bind (evaluateAll_renamed R ha env) fun values => ?_
      exact .bind (invoke_renamed R entering target values types result) fun outcome =>
        .mapError (.lift outcome.2) asOperand_rename
    | letIn bindings body =>
      obtain ⟨hb, h⟩ := forall_mem_append.mp ih
      simp only [rewriteContinuationIds, rewriteAll_eq, evaluate]
      exact .bind (evaluateBindings_renamed R hb env) fun env =>
        h body (mem_singleton_self body) env
    | ifElse clauses =>
      simp only [rewriteContinuationIds, evaluate]
      exact evaluateClauses_renamed R ih env
    | tryRegion region success failure cleanup =>
      obtain ⟨first, hc⟩ := forall_mem_append.mp ih
      simp only [forall_mem_cons] at first
      obtain ⟨hr, hs, hf, _⟩ := first
      simp only [rewriteContinuationIds, rewriteAll_eq, evaluate]
      refine .bind (.attempt (.bind (hr env) fun value => hs (env ++ [value]))) fun selected => ?_
      refine .bind (selectTry_renamed (fun status => hf (env ++ [R.statusWord status])) selected)
        fun selected => ?_
      exact finishTry_renamed (evaluateAll_renamed R hc env) selected
    | _ =>
      simp only [rewriteContinuationIds, evaluate]
      exact fail_renamed _

end operands

/-! ## Bodies -/

@[simp] theorem words_rename (parked : Parked V) : (parked.rename c).words = parked.words := by
  simp [Parked.words, Parked.rename, foldl_map]

theorem push_rename (parked : Parked V) (frames : List (Nat × List V)) :
    (parked.push frames).rename c =
      (parked.rename c).push (frames.map fun frame => (c frame.1, frame.2)) := by
  simp [Parked.push, Parked.rename]

theorem edgesFor_rename (target : Nat) (resumes : List NativeDynamicCallResume) :
    edgesFor target (resumes.map (·.rename c)) = (edgesFor target resumes).map (·.rename c) := by
  simp [edgesFor, filter_map, Function.comp_def, NativeDynamicCallResume.rename,
    NativeCallResume.rename]

theorem yieldReferences_of_part {e part : NativeExpr δ} (mem : part ∈ e.parts) {y : Nat}
    (found : y ∈ yieldReferences part) : y ∈ yieldReferences e := by
  obtain ⟨node, inner, own⟩ := mem_flatMap.mp found
  refine mem_flatMap.mpr ⟨node, ?_, own⟩
  rw [walkNativeExpr_eq]
  exact mem_cons_of_mem _ (mem_flatMap.mpr ⟨part, mem, inner⟩)

section bodies

variable (R : NativeRuntime δ V F σ) {enter enter' : Entry → List V → Running V F σ V}
  (entering : ∀ entry args, Renamed c id (enter entry args) (enter' (entry.rename c) args))

include entering

theorem passEdge_renamed {first next : NativeCallResume}
    (count : next.calleeCaptureCount = first.calleeCaptureCount)
    (start : next.callerValueStart = first.callerValueStart)
    (forwards : next.continuationId = next.calleeContinuationId ↔
      first.continuationId = first.calleeContinuationId)
    (leads : first.continuationId ≠ first.calleeContinuationId →
      next.continuationId = c first.continuationId)
    (parked : Parked V) (values : List (NativeExpr δ)) (env : List V) :
    Renamed c id (passEdge R enter first parked values env)
      (passEdge R enter' next (parked.rename c) (values.map (rewriteContinuationIds c)) env) := by
  have operation : (parked.rename c).operation = parked.operation := rfl
  unfold passEdge
  simp only [words_rename, operation, count, start, forwards, length_map]
  split
  · exact fail_renamed _
  split
  · exact .throw (Stop.parked parked)
  rename_i elsewhere
  split
  · exact fail_renamed _
  rw [← map_drop, leads elsewhere]
  refine .bind (evaluateAll_renamed R (fun e _ => evaluate_renamed R entering e) env)
    fun captured => ?_
  have parks : Renamed c id
      (throw (Stop.parked (parked.push [(first.continuationId, captured)])) : Running V F σ V)
      (throw (Stop.parked ((parked.push [(first.continuationId, captured)]).rename c))) := .throw _
  rw [push_rename] at parks
  exact parks

theorem extends_passEdge (edge : NativeCallResume) (parked : Parked V) (values : List (NativeExpr δ))
    (env : List V) : Extends World.events (passEdge R enter edge parked values env) := by
  unfold passEdge
  split
  · exact extends_throw _
  split
  · exact extends_throw _
  split
  · exact extends_throw _
  · exact extends_bind (evaluateAll_renamed R (fun e _ => evaluate_renamed R entering e) env).grows
      fun _ => extends_throw _

theorem wrapYield_renamed (edges : List NativeCallResume) (parked : Parked V)
    (values : List (NativeExpr δ)) (env : List V) :
    Renamed c id (wrapYield R enter edges parked values env)
      (wrapYield R enter' (edges.map (·.rename c)) (parked.rename c)
        (values.map (rewriteContinuationIds c)) env) := by
  unfold wrapYield
  refine emit_renamed (.wrapped edges parked.id) (fun agree => ?_) ?_
  · have named : (parked.rename c).id = c parked.id := rfl
    rw [named]
    rcases find?_rename agree with ⟨old, new⟩ | ⟨first, next, old, new, count, start, forwards, leads⟩
    · rw [old, new]
      exact fail_renamed _
    · rw [old, new]
      exact passEdge_renamed R entering count start forwards leads parked values env
  · split
    · exact extends_throw _
    · exact extends_passEdge R entering _ parked values env

theorem afterCall_renamed (outcome : Except (Stop V F) V) (edges : List NativeCallResume)
    (completion : Nat) (values : List (NativeExpr δ)) (env : List V) :
    Renamed c id (afterCall R enter outcome edges completion values env)
      (afterCall R enter' (mapOutcome (rename c) id outcome) (edges.map (·.rename c))
        (c completion) (values.map (rewriteContinuationIds c)) env) := by
  cases outcome with
  | ok value =>
    refine .bind (evaluateAll_renamed R (fun e _ => evaluate_renamed R entering e) env)
      fun captured => ?_
    exact entering (.continuation completion) (captured ++ [value])
  | error stop =>
    cases stop with
    | failed failure => exact .throw (Stop.failed failure)
    | parked callee => exact wrapYield_renamed R entering edges callee values env
    | exhausted => exact .throw exhausted

omit entering in
theorem checkReductions_renamed (yieldId : Option Nat) (stays : ∀ y ∈ yieldId, c y = y)
    (args : List V) : Renamed c id (checkReductions R yieldId args : Running V F σ Unit)
      (checkReductions R yieldId args) := by
  cases yieldId with
  | none => exact .pure _
  | some y =>
    refine .bind (ofRuntime_renamed _) fun exhausted => ?_
    show Renamed c id (if exhausted then _ else _) (if exhausted then _ else _)
    have parks : Renamed c id
        (throw (Stop.parked ⟨.yield, [], y, args, []⟩) : Running V F σ Unit)
        (throw (Stop.parked ⟨.yield, [], c y, args, []⟩)) :=
      .throw (Stop.parked ⟨.yield, [], y, args, []⟩)
    rw [stays y rfl] at parks
    split
    · exact parks
    · exact .pure _

/-- A body does the same after rewriting. -/
def BodyRenamed (R : NativeRuntime δ V F σ) (enter enter' : Entry → List V → Running V F σ V)
    (c : Nat → Nat) (e : NativeExpr δ) : Prop :=
  ∀ env, Renamed c id (runBody R enter e env) (runBody R enter' (rewriteContinuationIds c e) env)

theorem runClauses_renamed {clauses : List (NativeClause (NativeExpr δ))}
    (each : ∀ e ∈ clauses.flatMap NativeClause.parts, BodyRenamed R enter enter' c e)
    (env : List V) : Renamed c id (runClauses R enter clauses env)
      (runClauses R enter' (rewriteClauses c clauses) env) := by
  induction clauses with
  | nil => exact fail_renamed _
  | cons clause clauses ih =>
    rw [flatMap_cons] at each
    obtain ⟨first, rest⟩ := forall_mem_append.mp each
    simp only [NativeClause.parts, forall_mem_cons] at first
    refine .bind (evaluate_renamed R entering clause.condition env) fun value => ?_
    show Renamed c id (if R.isTrue value then _ else _) (if R.isTrue value then _ else _)
    split
    · exact first.2.1 env
    · exact ih rest

theorem runBody_renamed (e : NativeExpr δ) (stays : ∀ y ∈ yieldReferences e, c y = y) :
    BodyRenamed R enter enter' c e := by
  induction e using NativeExpr.induction with
  | step e ih =>
    intro env
    have parts : ∀ part ∈ e.parts, BodyRenamed R enter enter' c part :=
      fun part mem => ih part mem fun y found => stays y (yieldReferences_of_part mem found)
    have operands : ∀ (es : List (NativeExpr δ)), ∀ e ∈ es, EvaluateRenamed R enter enter' c e :=
      fun _ e _ => evaluate_renamed R entering e
    clear ih
    cases e with
    | letIn bindings body =>
      simp only [rewriteContinuationIds, rewriteAll_eq, runBody]
      exact .bind (evaluateBindings_renamed R (operands bindings) env) fun env =>
        parts body (mem_append_right _ (mem_singleton_self body)) env
    | ifElse clauses =>
      simp only [rewriteContinuationIds, runBody]
      exact runClauses_renamed R entering parts env
    | suspend operation arguments id values =>
      simp only [rewriteContinuationIds, rewriteAll_eq, runBody]
      exact .bind (evaluateAll_renamed R (operands arguments) env) fun arguments =>
        .bind (evaluateAll_renamed R (operands values) env) fun values =>
          .throw (Stop.parked ⟨operation, arguments, id, values, []⟩)
    | callThen function args resumes completion target values =>
      simp only [rewriteContinuationIds, rewriteAll_eq, runBody]
      exact .bind (evaluateAll_renamed R (operands args) env) fun args =>
        .bind (.attempt (entering (.function function) args)) fun outcome =>
          afterCall_renamed R entering outcome resumes completion values env
    | invokeClosure callee args types result =>
      simp only [rewriteContinuationIds, rewriteAll_eq, runBody]
      refine .bind (evaluate_renamed R entering callee env) fun target =>
        .bind (evaluateAll_renamed R (operands args) env) fun args => ?_
      exact .bind (invoke_renamed R entering target args types result) fun outcome =>
        .lift outcome.2
    | invokeClosureThen callee args types result resumes completion function values =>
      simp only [rewriteContinuationIds, rewriteAll_eq, runBody]
      refine .bind (evaluate_renamed R entering callee env) fun target =>
        .bind (evaluateAll_renamed R (operands args) env) fun args => ?_
      refine .bind (invoke_renamed R entering target args types result) fun outcome => ?_
      rw [edgesFor_rename]
      exact afterCall_renamed R entering outcome.2 (edgesFor outcome.1 resumes) completion values env
    | tailCall function args yieldId =>
      have own : ∀ y ∈ yieldId, c y = y := by
        intro y mem
        refine stays y (mem_flatMap.mpr ⟨.tailCall function args yieldId, ?_, ?_⟩)
        · exact mem_cons_self
        · exact Option.mem_toList.mpr mem
      simp only [rewriteContinuationIds, rewriteAll_eq, runBody]
      exact .bind (evaluateAll_renamed R (operands args) env) fun args =>
        .bind (checkReductions_renamed R yieldId own args) fun _ =>
          entering (.function function) args
    | continuationTailCall id args =>
      simp only [rewriteContinuationIds, rewriteAll_eq, runBody]
      exact .bind (evaluateAll_renamed R (operands args) env) fun args =>
        entering (.continuation id) args
    | operation operation args => exact evaluate_renamed R entering (.operation operation args) env
    | param index => exact evaluate_renamed R entering (.param index) env
    | call function args => exact evaluate_renamed R entering (.call function args) env
    | tryRegion region success failure cleanup =>
      exact evaluate_renamed R entering (.tryRegion region success failure cleanup) env

end bodies

/-! ## Programs -/

section programs

variable {R : NativeRuntime δ V F σ} {program program' : NativeProgram δ}

theorem body_mem {target : Nat} {e : NativeExpr δ} (found : program.body target = some e) :
    e ∈ program.bodies := by
  obtain ⟨t, isTarget, rfl⟩ := Option.map_eq_some_iff.mp found
  exact mem_append_right _ (mem_map.mpr ⟨t, mem_of_find?_eq_some isTarget, rfl⟩)

theorem runTarget_renamed {enter enter' : Entry → List V → Running V F σ V}
    {target : Option (NativeExpr δ)} (each : ∀ e ∈ target, BodyRenamed R enter enter' c e)
    (missing : Failure F) (args : List V) : Renamed c id (runTarget R enter target missing args)
      (runTarget R enter' (target.map (rewriteContinuationIds c)) missing args) := by
  cases target with
  | none => exact fail_renamed missing
  | some e => exact each e rfl args

theorem Renames.enter (renames : Renames c program program') (fuel : Nat) (entry : Entry)
    (args : List V) :
    Renamed c id (program.enter R fuel entry args) (program'.enter R fuel (entry.rename c) args) := by
  induction fuel generalizing entry args with
  | zero => exact .throw exhausted
  | succ fuel ih =>
    have body : ∀ e ∈ program.bodies, BodyRenamed R (program.enter R fuel) (program'.enter R fuel) c e :=
      fun e mem => runBody_renamed R ih e (renames.yields e mem)
    cases entry with
    | function index =>
      simp only [Entry.rename, NativeProgram.enter, renames.functions, getElem?_map]
      exact runTarget_renamed
        (fun e found => body e (mem_append_left _ (mem_of_getElem? found))) _ args
    | continuation target =>
      simp only [Entry.rename, NativeProgram.enter, renames.body]
      have rest : Renamed c id
          (runTarget R (program.enter R fuel) (program.body target) .missingContinuation args)
          (runTarget R (program'.enter R fuel)
            ((program.body target).map (rewriteContinuationIds c)) .missingContinuation args) :=
        runTarget_renamed (fun e found => body e (body_mem found)) _ args
      exact emit_renamed (.entered target args) (fun _ => rest) rest.grows

theorem Renames.accept (renames : Renames c program program') (parked : Parked V) :
    (program'.accept R (parked.rename c) : Except (Stop V F) Unit) =
      mapOutcome (rename c) id (program.accept R parked) := by
  have shapes : ((parked.rename c).frames.all fun frame =>
      decide (program'.arity frame.1 = some (frame.2.length + 1))) =
      parked.frames.all fun frame => decide (program.arity frame.1 = some (frame.2.length + 1)) := by
    simp only [Parked.rename, all_map, Function.comp_def, renames.arity]
  have named : program'.arity (parked.rename c).id = program.arity parked.id := renames.arity parked.id
  have waits : (parked.rename c).operation = parked.operation ∧
      (parked.rename c).arguments = parked.arguments ∧ (parked.rename c).values = parked.values :=
    ⟨rfl, rfl, rfl⟩
  unfold NativeProgram.accept
  rw [named, shapes, waits.1, waits.2.1, waits.2.2]
  cases program.arity parked.id with
  | none => rfl
  | some arity =>
    simp only []
    split
    · rfl
    split
    · rfl
    · rfl

/-- The whole drive does the same up to the renaming. -/
theorem Renames.drive (renames : Renames c program program') (fuel steps : Nat) (entry : Entry)
    (args : List V) (completions : List (Nat × List V)) (arrivals : List (List V)) :
    Renamed c id (program.drive R fuel steps entry args completions arrivals)
      (program'.drive R fuel steps (entry.rename c) args
        (completions.map fun frame => (c frame.1, frame.2)) arrivals) := by
  induction steps generalizing entry args completions arrivals with
  | zero => exact .throw exhausted
  | succ steps ih =>
    unfold NativeProgram.drive
    refine .bind (.attempt (renames.enter fuel entry args)) fun outcome => ?_
    cases outcome with
    | ok value =>
      cases completions with
      | nil => exact .pure value
      | cons frame completions => exact ih (.continuation frame.1) (frame.2 ++ [value]) completions arrivals
    | error stop =>
      cases stop with
      | failed failure => exact .throw (Stop.failed failure)
      | exhausted => exact .throw exhausted
      | parked callee =>
        have admitted : Renamed c id
            (liftM (program.accept R callee) : Running V F σ Unit)
            (liftM (program'.accept R (callee.rename c))) := by
          rw [renames.accept]
          exact .lift (program.accept R callee)
        refine .bind admitted fun _ => ?_
        have pushed := push_rename callee completions (c := c)
        cases arrivals with
        | nil =>
          have parks : Renamed c id
              (throw (Stop.parked (callee.push completions)) : Running V F σ V)
              (throw (Stop.parked ((callee.push completions).rename c))) := .throw _
          rw [pushed] at parks
          exact parks
        | cons arrived arrivals =>
          have next := ih (.continuation callee.id) (arrived ++ callee.values)
            (callee.push completions).frames arrivals
          exact congrArg Parked.frames pushed ▸ next

end programs

end Terlan.NativeIr
