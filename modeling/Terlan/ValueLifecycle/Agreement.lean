/-
  Where the evaluator of constants agrees with run time: a value that it computes is the value
  at run time, provided that each decision it took on the way is one that run time takes too.
-/
import Terlan.Lib.Log
import Terlan.ValueLifecycle.RunTime

namespace Terlan.ValueLifecycle

open Terlan.Lib List Function
open Terlan.Syntax

section agreement

variable (floats : FloatText)
  (otherForm : SyntaxPatternOutput → ConstValue → Locals → Option Locals)

/-! ## Decisions -/

mutual

/-- The evaluator's matcher is right about a pattern and a value: the text of a number is the
one that the number is written as, or another number is meant, and a form it does not know
does not match at run time. -/
def PatternDecided : SyntaxPatternOutput → ConstValue → Locals → Prop
  | .node kind arity text children fields, value, locals =>
    match kind, value with
    | .wildcard, _ | .ignore, _ | .var, _ | .string, _ | .atom, _ => True
    | .int, .int actual => text.bind parseI64 = some actual ↔ text = some (toString actual)
    | .float, .float actual =>
      (∃ expected, text.bind floats.parse = some expected ∧ floatEqual expected actual = true) ↔
        text = some (floats.format actual)
    | .tuple, .tuple values | .list, .list values =>
      children.length = values.length → PatternsDecided children values locals
    | .int, _ | .float, _ | .tuple, _ | .list, _ => True
    | _, value => runMatch floats otherForm (.node kind arity text children fields) value locals = none

/-- The patterns of a sequence up to the first that refuses its value. -/
def PatternsDecided : List SyntaxPatternOutput → List ConstValue → Locals → Prop
  | pattern :: patterns, value :: values, locals =>
    PatternDecided pattern value locals ∧ ∀ after, matchPattern floats pattern value locals = some after →
      PatternsDecided patterns values after
  | _, _, _ => True

end

variable {floats otherForm}

mutual

theorem matchPattern_eq_runMatch (pattern : SyntaxPatternOutput) (value : ConstValue) (locals : Locals)
    (decided : PatternDecided floats otherForm pattern value locals) :
    matchPattern floats pattern value locals = runMatch floats otherForm pattern value locals := by
  obtain ⟨kind, arity, text, children, fields⟩ := pattern
  cases kind with
  | wildcard | ignore | var | string | atom => cases value <;> rfl
  | int =>
    cases value with
    | int actual =>
      have canonical : text.bind parseI64 = some actual ↔ text = some (toString actual) := decided
      simp only [matchPattern, runMatch, canonical]
    | _ => rfl
  | float =>
    cases value with
    | float actual =>
      have canonical : (∃ expected, text.bind floats.parse = some expected ∧
        floatEqual expected actual = true) ↔ text = some (floats.format actual) := decided
      simp only [matchPattern, runMatch, ← canonical]
      cases text.bind floats.parse <;> simp
    | _ => rfl
  | tuple =>
    cases value with
    | tuple values =>
      have inside : children.length = values.length →
        PatternsDecided floats otherForm children values locals := decided
      simp only [matchPattern, runMatch]
      split
      · rename_i sameLength
        exact matchPatterns_eq_runMatches children values locals (inside sameLength)
      · rfl
    | _ => rfl
  | list =>
    cases value with
    | list values =>
      have inside : children.length = values.length →
        PatternsDecided floats otherForm children values locals := decided
      simp only [matchPattern, runMatch]
      split
      · rename_i sameLength
        exact matchPatterns_eq_runMatches children values locals (inside sameLength)
      · rfl
    | _ => rfl
  | stringPattern | stringCapture | aliasOf | listCons | constructor | map | mapField | placeholder
  | record | binaryLayout =>
    -- The evaluator refuses the form, and so does run time here.
    cases value <;> exact Eq.symm decided

theorem matchPatterns_eq_runMatches (patterns : List SyntaxPatternOutput) (values : List ConstValue)
    (locals : Locals) (decided : PatternsDecided floats otherForm patterns values locals) :
    matchPatterns floats patterns values locals = runMatches floats otherForm patterns values locals := by
  cases patterns with
  | nil => cases values <;> rfl
  | cons pattern patterns =>
    cases values with
    | nil => rfl
    | cons value values =>
      obtain ⟨first, rest⟩ := decided
      rw [matchPatterns, runMatches, ← matchPattern_eq_runMatch pattern value locals first]
      cases accepted : matchPattern floats pattern value locals with
      | none => rfl
      | some after => exact matchPatterns_eq_runMatches patterns values after (rest after accepted)

end

/-! ## The notes only grow -/

/-- A computation that keeps the notes made before it. -/
abbrev Grows {α : Type} (m : Evaluation α) : Prop := Extends Evaluator.tried m

theorem grows_note (decision : Decision) : Grows (note decision) :=
  extends_modify fun _ => suffix_cons _ _

theorem grows_tick : Grows tick := by
  refine extends_bind (extends_modify fun _ => suffix_refl _) fun _ => extends_get_bind fun s => ?_
  split
  · exact extends_throw _
  · exact extends_pure _

theorem grows_remember (name : String) (v : ConstValue) : Grows (remember name v) :=
  extends_bind (extends_modify fun _ => suffix_refl _) fun _ => extends_pure _

theorem grows_withActive (name : String) {m : Evaluation ConstValue} (h : Grows m) :
    Grows (withActive name m) :=
  extends_bind (extends_modify fun _ => suffix_refl _) fun _ => extends_bind (extends_attempt h)
    fun _ => extends_bind (extends_modify fun _ => suffix_refl _) fun _ => extends_lift _

section evaluator

variable (floats) {constants : Constants}

theorem grows_requireTermination (name : String) (arity : Nat) :
    Grows (requireTermination constants name arity) := by
  refine extends_get_bind fun s => ?_
  split
  · exact extends_lift _
  · split
    · exact extends_throw _
    · exact extends_pure _

section form

variable {evaluate : SyntaxExprOutput → Locals → Evaluation ConstValue}
  (grows : ∀ e l, Grows (evaluate e l))

include grows

theorem grows_evaluateSequence (es : List SyntaxExprOutput) (l : Locals) :
    Grows (evaluateSequence evaluate es l) := by
  induction es with
  | nil => exact extends_pure _
  | cons e es ih => exact extends_bind (grows e l) fun _ => extends_bind ih fun _ => extends_pure _

theorem grows_evaluateFields (fields : List (SyntaxExprFieldOutput SyntaxExprOutput)) (l : Locals)
    (entries : List (ConstEntry ConstValue)) : Grows (evaluateFields evaluate fields l entries) := by
  induction fields generalizing entries with
  | nil => exact extends_pure _
  | cons field fields ih => exact extends_bind (grows field.value l) fun _ => ih _

theorem grows_evaluateInOrder (es : List SyntaxExprOutput) (last : ConstValue) (l : Locals) :
    Grows (evaluateInOrder evaluate es last l) := by
  induction es generalizing last with
  | nil => exact extends_pure _
  | cons e es ih => exact extends_bind (grows e l) fun _ => ih _

theorem grows_evaluateNamed (name : String) : Grows (evaluateNamed constants evaluate name) := by
  refine extends_get_bind fun s => ?_
  split
  · exact extends_pure _
  split
  · exact extends_throw _
  split
  · exact extends_throw _
  · refine extends_bind (grows_withActive name (grows _ _)) fun _ => extends_bind (extends_lift _)
      fun _ => ?_
    split
    · exact extends_throw _
    · exact grows_remember _ _

theorem grows_evaluateVar (name : String) (l : Locals) :
    Grows (evaluateVar constants evaluate name l) := by
  unfold evaluateVar
  split
  · exact extends_pure _
  split
  · exact extends_pure _
  · split
    · exact extends_pure _
    · exact grows_evaluateNamed grows name

variable (e : SyntaxExprOutput) (l : Locals)

theorem grows_evaluateFieldAccess : Grows (evaluateFieldAccess constants evaluate e l) := by
  unfold evaluateFieldAccess
  split
  · exact extends_throw _
  refine extends_get_bind fun s => ?_
  split
  · exact extends_bind (grows_note _) fun _ => grows_evaluateNamed grows _
  · exact extends_bind (extends_lift _) fun _ => extends_bind (grows _ _) fun _ => extends_lift _

theorem grows_evaluateIndex : Grows (evaluateIndex evaluate e l) :=
  extends_bind (extends_lift _) fun _ => extends_bind (grows _ _) fun _ => extends_bind (extends_lift _)
    fun _ => extends_bind (grows _ _) fun _ => extends_lift _

theorem grows_evaluateUnary : Grows (evaluateUnary evaluate e l) :=
  extends_bind (extends_lift _) fun _ => extends_bind (grows _ _) fun _ => extends_lift _

theorem grows_evaluateBinary : Grows (evaluateBinary evaluate e l) :=
  extends_bind (extends_lift _) fun _ => extends_bind (grows _ _) fun _ => extends_bind (extends_lift _)
    fun _ => extends_bind (grows _ _) fun _ => extends_bind (grows_note _) fun _ => extends_lift _

theorem grows_callFunction (name : String) (argNames : List (Option String))
    (args : List ConstValue) : Grows (callFunction constants evaluate name argNames args) := by
  unfold callFunction
  split
  · exact extends_throw _
  · exact extends_bind (grows_requireTermination _ _) fun _ => extends_bind (grows_note _)
      fun _ => extends_bind (grows_withActive _ (grows _ _)) fun _ => extends_bind (extends_lift _)
      fun _ => extends_pure _

theorem grows_evaluateCall : Grows (evaluateCall constants evaluate e l) := by
  refine extends_bind (extends_lift _) fun callee => ?_
  split
  · exact extends_throw _
  · exact extends_bind (grows_evaluateSequence grows _ l) fun args => grows_callFunction grows _ _ _

omit grows in
theorem grows_noteGuard (index : Nat) (l : Locals) : Grows (noteGuard e index l) := by
  unfold noteGuard
  split
  · exact grows_note _
  · exact extends_pure _

theorem grows_evaluateBindings (patterns : List SyntaxPatternOutput)
    (index : Nat) (l : Locals) : Grows (evaluateBindings floats evaluate e patterns index l) := by
  induction patterns generalizing index l with
  | nil => exact extends_pure _
  | cons pattern patterns ih =>
    exact extends_bind (extends_lift _) fun _ => extends_bind (grows _ _) fun _ =>
      extends_bind (grows_note _) fun _ => extends_bind (extends_lift _) fun _ =>
      extends_bind (grows_noteGuard _ _ _) fun _ => ih _ _

theorem grows_evaluateLet : Grows (evaluateLet floats evaluate e l) := by
  refine extends_bind (grows_evaluateBindings floats grows _ _ _ _) fun _ => ?_
  split
  · exact grows _ _
  · exact extends_throw _

theorem grows_evaluateClauses (clauses : List (SyntaxClauseOutput SyntaxExprOutput)) (v : ConstValue)
    (l : Locals) : Grows (evaluateClauses floats evaluate clauses v l) := by
  induction clauses with
  | nil => exact extends_throw _
  | cons clause clauses ih =>
    unfold evaluateClauses
    split
    · exact ih
    refine extends_bind (grows_note _) fun _ => ?_
    split
    · exact ih
    split
    · exact grows _ _
    refine extends_bind (grows _ _) fun _ => ?_
    split
    · exact grows _ _
    · exact ih

theorem grows_evaluateForm : Grows (evaluateForm floats constants evaluate e l) := by
  unfold evaluateForm
  split
  · exact extends_lift _
  · exact extends_lift _
  · exact extends_pure _
  · exact extends_lift _
  · exact grows_evaluateVar grows _ l
  · exact grows_evaluateFieldAccess grows e l
  · exact extends_map (grows_evaluateSequence grows _ l)
  · exact extends_map (grows_evaluateSequence grows _ l)
  · exact extends_map (grows_evaluateSequence grows _ l)
  · exact extends_map (grows_evaluateFields grows _ l _)
  · exact extends_map (grows_evaluateFields grows _ l _)
  · exact grows_evaluateIndex grows e l
  · exact grows_evaluateUnary grows e l
  · exact grows_evaluateBinary grows e l
  · exact grows_evaluateCall grows e l
  · exact grows_evaluateCall grows e l
  · exact grows_evaluateLet floats grows e l
  · exact extends_bind (extends_lift _) fun _ => extends_bind (grows _ _) fun _ =>
      grows_evaluateClauses floats grows _ _ l
  · exact grows_evaluateInOrder grows _ _ l
  · exact extends_throw _

end form

theorem grows_evaluateExpr (depth : Nat) (e : SyntaxExprOutput) (l : Locals) :
    Grows (evaluateExpr floats constants depth e l) := by
  induction depth generalizing e l with
  | zero => exact extends_throw _
  | succ depth ih => exact extends_bind grows_tick fun _ => grows_evaluateForm floats ih e l

end evaluator

/-! ## Agreement of a computation -/

section agrees

variable (floats otherForm) (constants : Constants) (imported : ConstValues)

/-- Run time takes the same decision: a compared pair is as equal there, no name of a constant
path is bound, the guard that is passed over holds, and the arguments are in the order of the
parameters they name. -/
def Decided : Decision → Prop
  | .pattern pattern value locals => PatternDecided floats otherForm pattern value locals
  | .binary operator left right => isEquality operator → sameValue left right = equalValue left right
  | .path expr locals => ∀ root ∈ referencedNames expr, locals root = none
  | .letGuard guard locals => RunsTo floats otherForm constants imported locals guard (.bool true)
  | .call params argNames args => arrangeArgs params argNames args = some args

def AllDecided (s : Evaluator) : Prop :=
  ∀ decision ∈ s.tried, Decided floats otherForm constants imported decision

/-- Every remembered value is that of its name, and the imported ones are remembered. -/
structure Held (s : Evaluator) : Prop where
  names : ∀ name v, s.values name = some v → Names floats otherForm constants imported name v
  imported : ∀ name, (imported name).isSome → (s.values name).isSome

/-- When all the decisions of a computation are those of run time, what it remembers is right,
and so is its result. -/
def Agrees {α : Type} (m : Evaluation α) (Q : α → Prop) : Prop :=
  ∀ s s' r, m.call s = (s', r) → Held floats otherForm constants imported s →
    AllDecided floats otherForm constants imported s' →
    Held floats otherForm constants imported s' ∧ ∀ a, r = .ok a → Q a

end agrees

section rules

variable {constants : Constants} {imported : ConstValues} {α β : Type} {P : α → Prop} {Q : β → Prop}

theorem AllDecided.of_suffix {s s' : Evaluator} (noted : s.tried <:+ s'.tried)
    (decided : AllDecided floats otherForm constants imported s') :
    AllDecided floats otherForm constants imported s :=
  fun decision mem => decided decision (noted.subset mem)

theorem agrees_pure {a : α} (holds : P a) : Agrees floats otherForm constants imported (pure a) P := by
  intro s s' r run held _
  cases run
  exact ⟨held, fun b same => Except.ok.inj same ▸ holds⟩

theorem agrees_throw (e : ValueLifecycleDiagnostic) :
    Agrees floats otherForm constants imported (throw e : Evaluation α) P := by
  intro s s' r run held _
  cases run
  exact ⟨held, nofun⟩

theorem agrees_lift {x : Except ValueLifecycleDiagnostic α} (holds : ∀ a, x = .ok a → P a) :
    Agrees floats otherForm constants imported (liftM x) P := by
  intro s s' r run held _
  rw [call_lift] at run
  cases run
  exact ⟨held, holds⟩

variable {m : Evaluation α}

/-- The decisions of the first part are among those of the whole. -/
theorem agrees_bind {f : α → Evaluation β}
    (first : Agrees floats otherForm constants imported m P) (grows : ∀ a, Grows (f a))
    (second : ∀ a, P a → Agrees floats otherForm constants imported (f a) Q) :
    Agrees floats otherForm constants imported (m >>= f) Q := by
  intro s s'' r run held decided
  rw [call_bind] at run
  rcases firstRun : m.call s with ⟨s', e | a⟩
  · rw [firstRun] at run
    cases run
    exact ⟨(first s _ _ firstRun held decided).1, nofun⟩
  replace run : (f a).call s' = (s'', r) := by rw [firstRun] at run; exact run
  have noted : s'.tried <:+ s''.tried := by
    have kept := grows a s'
    rwa [run] at kept
  obtain ⟨held', holds⟩ := first s s' _ firstRun held (decided.of_suffix noted)
  exact second a (holds a rfl) s' s'' r run held' decided

theorem agrees_get_bind {f : Evaluator → Evaluation β}
    (rest : ∀ s, Held floats otherForm constants imported s →
      Agrees floats otherForm constants imported (f s) Q) :
    Agrees floats otherForm constants imported (get >>= f) Q :=
  fun s s' r run held decided => rest s held s s' r run held decided

theorem agrees_note (decision : Decision) : Agrees floats otherForm constants imported (note decision)
    fun _ => Decided floats otherForm constants imported decision := by
  intro s s' r run held decided
  cases run
  exact ⟨⟨held.names, held.imported⟩, fun _ _ => decided decision mem_cons_self⟩

theorem agrees_map {f : α → β} (h : Agrees floats otherForm constants imported m fun a => Q (f a)) :
    Agrees floats otherForm constants imported (f <$> m) Q :=
  agrees_bind h (fun _ => extends_pure _) fun _ holds => agrees_pure holds

theorem agrees_weaken {P' : α → Prop}
    (h : Agrees floats otherForm constants imported m P) (weaker : ∀ a, P a → P' a) :
    Agrees floats otherForm constants imported m P' :=
  fun s s' r run held decided =>
    (h s s' r run held decided).imp_right fun holds a same => weaker a (holds a same)

theorem agrees_withActive {name : String} {m : Evaluation ConstValue} {P : ConstValue → Prop}
    (h : Agrees floats otherForm constants imported m P) :
    Agrees floats otherForm constants imported (withActive name m) P := by
  intro s s' r run held decided
  unfold withActive at run
  rw [call_modify_bind, call_bind, call_attempt] at run
  rcases inner : m.call { s with active := s.active ++ [name] } with ⟨t, result⟩
  rw [inner] at run
  have after := h _ _ _ inner ⟨held.names, held.imported⟩
  cases result with
  | error e =>
    cases run
    exact ⟨⟨(after decided).1.names, (after decided).1.imported⟩, nofun⟩
  | ok w =>
    cases run
    exact ⟨⟨(after decided).1.names, (after decided).1.imported⟩, (after decided).2⟩

variable {v : ConstValue}

theorem agrees_remember {name : String} (names : Names floats otherForm constants imported name v) :
    Agrees floats otherForm constants imported (remember name v)
      (Names floats otherForm constants imported name) := by
  intro s s' r run held _
  cases run
  have after : Held floats otherForm constants imported
      { s with values := Function.update s.values name (some v) } := by
    constructor
    · intro other w found
      by_cases same : other = name
      · subst same
        cases (update_self other (some v) s.values).symm.trans found
        exact names
      · exact held.names other w ((update_of_ne same _ _).symm.trans found)
    · intro other isImported
      by_cases same : other = name
      · subst same
        exact (congrArg Option.isSome (update_self other (some v) s.values)).trans rfl
      · exact (congrArg Option.isSome (update_of_ne same _ _)).trans
          (held.imported other isImported)
  exact ⟨after, fun w same => Except.ok.inj same ▸ names⟩

theorem agrees_tick : Agrees floats otherForm constants imported tick fun _ => True := by
  intro s s' r run held _
  unfold tick at run
  rw [call_modify_bind, call_get_bind] at run
  split at run
  · cases run
    exact ⟨⟨held.names, held.imported⟩, nofun⟩
  · cases run
    exact ⟨⟨held.names, held.imported⟩, fun _ _ => trivial⟩

/-! ## Operators -/

theorem requiredChild_ok_iff {e c : SyntaxExprOutput} {index : Nat} :
    requiredChild e index = .ok c ↔ e.children[index]? = some c := by
  unfold requiredChild
  cases e.children[index]? <;> simp

theorem orOverflow_ok_iff {n : Option Int} : orOverflow n = .ok v ↔ n.map .int = some v := by
  cases n <;> simp [orOverflow]

theorem runUnary_of_unaryValue {operator : Option String} {v w : ConstValue}
    (computed : unaryValue operator v = .ok w) : runUnary operator v = some w := by
  unfold unaryValue at computed
  split at computed
  · exact orOverflow_ok_iff.mp computed
  · exact congrArg some (Except.ok.inj computed)
  · exact absurd computed nofun

theorem onBools_ok {f : Bool → Bool → Bool} {v w result : ConstValue}
    (computed : onBools f v w = .ok result) :
    ∃ a b, v = .bool a ∧ w = .bool b ∧ result = .bool (f a b) := by
  unfold onBools at computed
  split at computed
  · exact ⟨_, _, rfl, rfl, (Except.ok.inj computed).symm⟩
  · exact absurd computed nofun

theorem runInts_of_onInts {f : Int → Int → Except ValueLifecycleDiagnostic ConstValue}
    {g : Int → Int → Option ConstValue} {v w result : ConstValue}
    (same : ∀ a b, f a b = .ok result → g a b = some result) (computed : onInts f v w = .ok result) :
    runInts g v w = some result := by
  unfold onInts at computed
  split at computed
  · exact same _ _ computed
  · exact absurd computed nofun

theorem divided_ok {b : Int} {n : Option Int} {zero : ValueLifecycleDiagnostic}
    (computed : (if b = 0 then .error zero else orOverflow n) = .ok v) : n.map .int = some v := by
  split at computed
  · exact absurd computed nofun
  · exact orOverflow_ok_iff.mp computed

theorem runBinary_of_binaryValue {operator : Option String} {v w result : ConstValue}
    (notAnd : operator ≠ some "and") (notOr : operator ≠ some "or")
    (equality : isEquality operator → sameValue v w = equalValue v w)
    (computed : binaryValue operator v w = .ok result) : runBinary operator v w = some result := by
  unfold binaryValue at computed
  unfold runBinary
  split at computed
  · exact runInts_of_onInts (fun _ _ => orOverflow_ok_iff.mp) computed
  · exact runInts_of_onInts (fun _ _ => orOverflow_ok_iff.mp) computed
  · exact runInts_of_onInts (fun _ _ => orOverflow_ok_iff.mp) computed
  · exact runInts_of_onInts (fun _ _ => divided_ok) computed
  · exact runInts_of_onInts (fun _ _ => divided_ok) computed
  · exact runInts_of_onInts (fun _ _ => divided_ok) computed
  · rw [← Except.ok.inj computed, equality (by simp [isEquality])]
    rfl
  · rw [← Except.ok.inj computed, equality (by simp [isEquality])]
    rfl
  · rw [← Except.ok.inj computed, equality (by simp [isEquality])]
    rfl
  · rw [← Except.ok.inj computed, equality (by simp [isEquality])]
    rfl
  · exact absurd rfl notAnd
  · exact absurd rfl notOr
  · exact runInts_of_onInts (fun _ _ ok => congrArg some (Except.ok.inj ok)) computed
  · exact runInts_of_onInts (fun _ _ ok => congrArg some (Except.ok.inj ok)) computed
  · exact runInts_of_onInts (fun _ _ ok => congrArg some (Except.ok.inj ok)) computed
  · exact runInts_of_onInts (fun _ _ ok => congrArg some (Except.ok.inj ok)) computed
  · exact absurd computed nofun

theorem sameValue_true_iff : sameValue v (.bool true) = true ↔ v = .bool true := by
  cases v <;> simp [sameValue]

/-! ## Literals -/

variable {e : SyntaxExprOutput}

theorem runsTo_intLiteral {l : Locals} (isInt : e.kind = .int)
    (literal : intLiteral e = .ok v) : RunsTo floats otherForm constants imported l e v := by
  unfold intLiteral at literal
  split at literal
  · rename_i n parsed
    cases literal
    exact .int isInt parsed
  · cases literal

theorem runsTo_floatLiteral {l : Locals}
    (isFloat : e.kind = .float) (literal : floatLiteral floats e = .ok v) :
    RunsTo floats otherForm constants imported l e v := by
  unfold floatLiteral at literal
  split at literal
  · rename_i bits parsed
    cases literal
    exact .float isFloat parsed
  · cases literal

theorem runsTo_atomLiteral {l : Locals}
    (isAtom : e.kind = .atom) (literal : atomLiteral e = .ok v) :
    RunsTo floats otherForm constants imported l e v := by
  have valued : ∀ text, e.text = some text → v = atomValue text →
      RunsTo floats otherForm constants imported l e v := by
    intro text spelled same
    rw [same]
    exact .atom isAtom spelled
  unfold atomLiteral at literal
  split at literal
  · rename_i spelled
    exact valued "true" spelled (Except.ok.inj literal).symm
  · rename_i spelled
    exact valued "false" spelled (Except.ok.inj literal).symm
  · rename_i text notTrue notFalse spelled
    refine valued text spelled ((Except.ok.inj literal).symm.trans ?_)
    simp only [atomValue, if_neg notTrue, if_neg notFalse]
  · cases literal

/-! ## Each form -/

section form

variable {evaluate : SyntaxExprOutput → Locals → Evaluation ConstValue}
  (grows : ∀ e l, Grows (evaluate e l))
  (agrees : ∀ e l, Agrees floats otherForm constants imported (evaluate e l)
    (RunsTo floats otherForm constants imported l e))

include grows agrees

theorem agrees_evaluateSequence (es : List SyntaxExprOutput) (l : Locals) :
    Agrees floats otherForm constants imported (evaluateSequence evaluate es l)
      (RunsAll floats otherForm constants imported l es) := by
  induction es with
  | nil => exact agrees_pure .nil
  | cons e es ih =>
    refine agrees_bind (agrees e l)
      (fun _ => extends_bind (grows_evaluateSequence grows es l) fun _ => extends_pure _) fun v first => ?_
    exact agrees_bind ih (fun _ => extends_pure _) fun vs rest => agrees_pure (.cons first rest)

theorem agrees_evaluateFields (fields : List (SyntaxExprFieldOutput SyntaxExprOutput)) (l : Locals)
    (entries : List (ConstEntry ConstValue)) :
    Agrees floats otherForm constants imported (evaluateFields evaluate fields l entries)
      (RunsFields floats otherForm constants imported l fields entries) := by
  induction fields generalizing entries with
  | nil => exact agrees_pure .nil
  | cons field fields ih =>
    exact agrees_bind (agrees field.value l) (fun _ => grows_evaluateFields grows fields l _)
      fun v first => agrees_weaken (ih _) fun after rest => .cons first rest

theorem agrees_evaluateInOrder (es : List SyntaxExprOutput) (last : ConstValue) (l : Locals) :
    Agrees floats otherForm constants imported (evaluateInOrder evaluate es last l)
      (RunsInOrder floats otherForm constants imported l es last) := by
  induction es generalizing last with
  | nil => exact agrees_pure .nil
  | cons e es ih =>
    exact agrees_bind (agrees e l) (fun _ => grows_evaluateInOrder grows es _ l)
      fun v first => agrees_weaken (ih _) fun result rest => .cons first rest

omit grows in
/-- A name that is remembered keeps its value, and a definition is evaluated where it is not an
imported name. -/
theorem agrees_evaluateNamed (name : String) :
    Agrees floats otherForm constants imported (evaluateNamed constants evaluate name)
      (Names floats otherForm constants imported name) := by
  refine agrees_get_bind fun s held => ?_
  cases known : s.values name with
  | some v => exact agrees_pure (held.names name v known)
  | none =>
    have notImported : imported name = none := by
      cases isImported : imported name with
      | none => rfl
      | some v => exact absurd (held.imported name (by simp [isImported])) (by simp [known])
    cases defined : constants.definitions name with
    | none => exact agrees_throw _
    | some definition =>
      simp only []
      split
      · exact agrees_throw _
      refine agrees_bind (agrees_withActive (agrees _ _)) (fun v => ?_) fun v runs => ?_
      · refine extends_bind (extends_lift _) fun _ => ?_
        split
        · exact extends_throw _
        · exact grows_remember _ _
      · refine agrees_bind (agrees_lift fun _ _ => trivial) (fun _ => ?_) fun _ _ => ?_
        · split
          · exact extends_throw _
          · exact grows_remember _ _
        · split
          · exact agrees_throw _
          · exact agrees_remember (.defined notImported defined runs)

variable {e : SyntaxExprOutput}

omit grows in
theorem agrees_evaluateVar (isVar : e.kind = .var) (l : Locals) :
    Agrees floats otherForm constants imported (evaluateVar constants evaluate (e.text.getD "") l)
      (RunsTo floats otherForm constants imported l e) := by
  unfold evaluateVar
  split
  · rename_i isTrue
    exact agrees_pure (.truth isVar isTrue)
  rename_i notTrue
  split
  · rename_i isFalse
    exact agrees_pure (.falsity isVar isFalse)
  rename_i notFalse
  cases held : l (e.text.getD "") with
  | some v => exact agrees_pure (.held isVar notTrue notFalse held)
  | none =>
    exact agrees_weaken (agrees_evaluateNamed agrees _) fun v names =>
      .constant isVar notTrue notFalse held names

theorem agrees_evaluateFieldAccess (isField : e.kind = .fieldAccess) (l : Locals) :
    Agrees floats otherForm constants imported (evaluateFieldAccess constants evaluate e l)
      (RunsTo floats otherForm constants imported l e) := by
  unfold evaluateFieldAccess
  cases spelled : qualifiedExprName e with
  | none => exact agrees_throw _
  | some name =>
    refine agrees_get_bind fun s held => ?_
    have known : (constants.definitions name).isSome ∨ (s.values name).isSome ↔
        isConstant constants imported name := by
      refine ⟨fun known => ?_, fun known => known.imp_right (held.imported name)⟩
      rcases known with defined | remembered
      · exact .inl defined
      obtain ⟨v, remembered⟩ := Option.isSome_iff_exists.mp remembered
      cases held.names name v remembered with
      | imported isImported => exact .inr (by simp [isImported])
      | defined _ defined _ => exact .inl (by simp [defined])
    split
    · rename_i isKnown
      refine agrees_bind (agrees_note _) (fun _ => grows_evaluateNamed grows name) fun _ unbound => ?_
      exact agrees_weaken (agrees_evaluateNamed agrees name) fun v names =>
        .path isField ⟨spelled, known.mp isKnown, unbound⟩ names
    · rename_i notKnown
      refine agrees_bind (agrees_lift fun c child => requiredChild_ok_iff.mp child)
        (fun _ => extends_bind (grows _ _) fun _ => extends_lift _) fun c child => ?_
      refine agrees_bind (agrees c l) (fun _ => extends_lift _) fun owner runs => ?_
      refine agrees_lift fun v field => .field isField (fun other path => ?_) child runs field
      obtain ⟨spelledOther, isKnown, _⟩ := path
      cases spelled.symm.trans spelledOther
      exact notKnown (known.mpr isKnown)

theorem agrees_evaluateIndex (isIndex : e.kind = .index) (l : Locals) :
    Agrees floats otherForm constants imported (evaluateIndex evaluate e l)
      (RunsTo floats otherForm constants imported l e) := by
  refine agrees_bind (agrees_lift fun c child => requiredChild_ok_iff.mp child)
    (fun _ => extends_bind (grows _ _) fun _ => extends_bind (extends_lift _) fun _ =>
      extends_bind (grows _ _) fun _ => extends_lift _) fun c first => ?_
  refine agrees_bind (agrees c l) (fun _ => extends_bind (extends_lift _) fun _ =>
    extends_bind (grows _ _) fun _ => extends_lift _) fun collection runs => ?_
  refine agrees_bind (agrees_lift fun d child => requiredChild_ok_iff.mp child)
    (fun _ => extends_bind (grows _ _) fun _ => extends_lift _) fun d second => ?_
  refine agrees_bind (agrees d l) (fun _ => extends_lift _) fun position runsTo => ?_
  exact agrees_lift fun v element => .index isIndex first second runs runsTo element

theorem agrees_evaluateUnary (isUnary : e.kind = .unaryOp) (l : Locals) :
    Agrees floats otherForm constants imported (evaluateUnary evaluate e l)
      (RunsTo floats otherForm constants imported l e) := by
  refine agrees_bind (agrees_lift fun c child => requiredChild_ok_iff.mp child)
    (fun _ => extends_bind (grows _ _) fun _ => extends_lift _) fun c child => ?_
  refine agrees_bind (agrees c l) (fun _ => extends_lift _) fun v runs => ?_
  exact agrees_lift fun w computed => .unary isUnary child runs (runUnary_of_unaryValue computed)

theorem agrees_evaluateBinary (isBinary : e.kind = .binaryOp) (l : Locals) :
    Agrees floats otherForm constants imported (evaluateBinary evaluate e l)
      (RunsTo floats otherForm constants imported l e) := by
  refine agrees_bind (agrees_lift fun c child => requiredChild_ok_iff.mp child)
    (fun _ => extends_bind (grows _ _) fun _ => extends_bind (extends_lift _) fun _ =>
      extends_bind (grows _ _) fun _ => extends_bind (grows_note _) fun _ => extends_lift _) fun c first => ?_
  refine agrees_bind (agrees c l) (fun _ => extends_bind (extends_lift _) fun _ =>
    extends_bind (grows _ _) fun _ => extends_bind (grows_note _) fun _ => extends_lift _) fun v runs => ?_
  refine agrees_bind (agrees_lift fun d child => requiredChild_ok_iff.mp child)
    (fun _ => extends_bind (grows _ _) fun _ => extends_bind (grows_note _) fun _ => extends_lift _)
    fun d second => ?_
  refine agrees_bind (agrees d l) (fun _ => extends_bind (grows_note _) fun _ => extends_lift _)
    fun w runsTo => ?_
  refine agrees_bind (agrees_note _) (fun _ => extends_lift _) fun _ equality => ?_
  refine agrees_lift fun result computed => ?_
  by_cases isAnd : e.operator = some "and"
  · rw [isAnd] at computed
    obtain ⟨a, b, rfl, rfl, rfl⟩ := onBools_ok computed
    cases a with
    | false => exact .conjunctionStops isBinary isAnd first runs
    | true => exact .conjunction isBinary isAnd first second runs runsTo
  · by_cases isOr : e.operator = some "or"
    · rw [isOr] at computed
      obtain ⟨a, b, rfl, rfl, rfl⟩ := onBools_ok computed
      cases a with
      | false => exact .disjunction isBinary isOr first second runs runsTo
      | true => exact .disjunctionStops isBinary isOr first runs
    · exact .strict isBinary isAnd isOr first second runs runsTo
        (runBinary_of_binaryValue isAnd isOr equality computed)

omit grows agrees in
theorem agrees_requireTermination (name : String) (arity : Nat) :
    Agrees floats otherForm constants imported (requireTermination constants name arity)
      fun _ => True := by
  refine agrees_get_bind fun s _ => ?_
  split
  · exact agrees_lift fun _ _ => trivial
  · split
    · exact agrees_throw _
    · exact agrees_pure trivial

theorem agrees_callFunction {e callee : SyntaxExprOutput} {localName : String}
    (isCall : e.kind = .call ∨ e.kind = .functionCall) (child : e.children[0]? = some callee)
    (spelled : qualifiedExprName callee = some localName) {l : Locals} {args : List ConstValue}
    (runs : RunsAll floats otherForm constants imported l (e.children.drop 1) args) :
    Agrees floats otherForm constants imported
      (callFunction constants evaluate (calledName e localName) e.argNames args)
      (RunsTo floats otherForm constants imported l e) := by
  unfold callFunction
  cases known : constants.functions (calledName e localName, args.length) with
  | none => exact agrees_throw _
  | some function =>
    refine agrees_bind (agrees_requireTermination _ _) (fun _ => extends_bind (grows_note _) fun _ =>
      extends_bind (grows_withActive _ (grows _ _)) fun _ => extends_bind (extends_lift _)
        fun _ => extends_pure _) fun _ _ => ?_
    refine agrees_bind (agrees_note _) (fun _ => extends_bind (grows_withActive _ (grows _ _))
      fun _ => extends_bind (extends_lift _) fun _ => extends_pure _) fun _ arranged => ?_
    refine agrees_bind (agrees_withActive (agrees _ _))
      (fun _ => extends_bind (extends_lift _) fun _ => extends_pure _) fun v runsBody => ?_
    exact agrees_bind (agrees_lift fun _ _ => trivial) (fun _ => extends_pure _)
      fun _ _ => agrees_pure (.call isCall child spelled runs known arranged runsBody)

theorem agrees_evaluateCall (isCall : e.kind = .call ∨ e.kind = .functionCall) (l : Locals) :
    Agrees floats otherForm constants imported (evaluateCall constants evaluate e l)
      (RunsTo floats otherForm constants imported l e) := by
  refine agrees_bind (agrees_lift fun c child => requiredChild_ok_iff.mp child) (fun callee => ?_)
    fun callee child => ?_
  · split
    · exact extends_throw _
    · exact extends_bind (grows_evaluateSequence grows _ l) fun args => grows_callFunction grows _ _ _
  · cases spelled : qualifiedExprName callee with
    | none => exact agrees_throw _
    | some localName =>
      exact agrees_bind (agrees_evaluateSequence grows agrees _ l)
        (fun _ => grows_callFunction grows _ _ _)
        fun args runs => agrees_callFunction grows agrees isCall child spelled runs

omit grows agrees in
theorem matchBinding_ok_iff {pattern : SyntaxPatternOutput} {v : ConstValue} {l scope : Locals} :
    matchBinding floats pattern v l = .ok scope ↔ matchPattern floats pattern v l = some scope := by
  unfold matchBinding
  cases matchPattern floats pattern v l <;> simp

omit grows agrees in
theorem agrees_noteGuard (e : SyntaxExprOutput) (index : Nat) (scope : Locals) :
    Agrees floats otherForm constants imported (noteGuard e index scope) fun _ =>
      ∀ guard, e.letGuards[index]? = some (some guard) →
        RunsTo floats otherForm constants imported scope guard (.bool true) := by
  unfold noteGuard
  split
  · rename_i guard isGuard
    refine agrees_weaken (agrees_note _) fun _ holds other isOther => ?_
    cases isGuard.symm.trans isOther
    exact holds
  · rename_i noGuard
    exact agrees_pure fun guard isGuard => absurd isGuard (noGuard guard)

theorem agrees_evaluateBindings (e : SyntaxExprOutput) (patterns : List SyntaxPatternOutput)
    (index : Nat) (l : Locals) :
    Agrees floats otherForm constants imported (evaluateBindings floats evaluate e patterns index l)
      (RunsBindings floats otherForm constants imported e patterns index l) := by
  induction patterns generalizing index l with
  | nil => exact agrees_pure .nil
  | cons pattern patterns ih =>
    have later := fun index scope => grows_evaluateBindings floats grows e patterns index scope
    refine agrees_bind (agrees_lift fun c child => requiredChild_ok_iff.mp child)
      (fun _ => extends_bind (grows _ _) fun _ => extends_bind (grows_note _) fun _ =>
        extends_bind (extends_lift _) fun _ => extends_bind (grows_noteGuard _ _ _) fun _ => later _ _)
      fun c child => ?_
    refine agrees_bind (agrees c l) (fun _ => extends_bind (grows_note _) fun _ =>
      extends_bind (extends_lift _) fun _ => extends_bind (grows_noteGuard _ _ _) fun _ => later _ _)
      fun v runs => ?_
    refine agrees_bind (agrees_note _) (fun _ => extends_bind (extends_lift _) fun _ =>
      extends_bind (grows_noteGuard _ _ _) fun _ => later _ _) fun _ decided => ?_
    refine agrees_bind (agrees_lift fun scope matched => matchBinding_ok_iff.mp matched)
      (fun _ => extends_bind (grows_noteGuard _ _ _) fun _ => later _ _) fun scope matched => ?_
    refine agrees_bind (agrees_noteGuard e index scope) (fun _ => later _ _) fun _ guarded => ?_
    rw [matchPattern_eq_runMatch pattern v l decided] at matched
    exact agrees_weaken (ih _ _) fun after rest => .cons child runs matched guarded rest

theorem agrees_evaluateLet (isLet : e.kind = .letIn) (l : Locals) :
    Agrees floats otherForm constants imported (evaluateLet floats evaluate e l)
      (RunsTo floats otherForm constants imported l e) := by
  refine agrees_bind (agrees_evaluateBindings grows agrees _ _ _ _) (fun _ => ?_) fun scope bindings => ?_
  · split
    · exact grows _ _
    · exact extends_throw _
  · cases isBody : e.children[min e.arity e.patterns.length]? with
    | none => exact agrees_throw _
    | some body =>
      exact agrees_weaken (agrees body scope) fun v runs => .letIn isLet bindings isBody runs

theorem agrees_evaluateClauses (clauses : List (SyntaxClauseOutput SyntaxExprOutput)) (v : ConstValue)
    (l : Locals) :
    Agrees floats otherForm constants imported (evaluateClauses floats evaluate clauses v l)
      (RunsClauses floats otherForm constants imported l clauses v) := by
  induction clauses with
  | nil => exact agrees_throw _
  | cons clause clauses ih =>
    have later := grows_evaluateClauses floats grows clauses v l
    unfold evaluateClauses
    split
    · rename_i noPattern
      exact agrees_weaken ih fun result taken => .noPattern noPattern taken
    rename_i pattern rest hasPattern
    have first : clause.patterns.head? = some pattern := by rw [hasPattern]; rfl
    refine agrees_bind (agrees_note _) (fun _ => ?_) fun _ decided => ?_
    · split
      · exact later
      · split
        · exact grows _ _
        · refine extends_bind (grows _ _) fun _ => ?_
          split
          · exact grows _ _
          · exact later
    · rw [matchPattern_eq_runMatch pattern v l decided]
      cases matched : runMatch floats otherForm pattern v l with
      | none => exact agrees_weaken ih fun result taken => .skipped first matched taken
      | some scope =>
        cases guarded : clause.guard with
        | none =>
          exact agrees_weaken (agrees clause.body scope) fun result runs =>
            .taken first matched (fun guard isGuard => by cases guarded.symm.trans isGuard) runs
        | some guard =>
          refine agrees_bind (agrees guard scope) (fun _ => ?_) fun accepted accepts => ?_
          · split
            · exact grows _ _
            · exact later
          · split
            · rename_i isTrue
              cases sameValue_true_iff.mp isTrue
              refine agrees_weaken (agrees clause.body scope) fun result runs =>
                .taken first matched (fun other isGuard => ?_) runs
              cases guarded.symm.trans isGuard
              exact accepts
            · rename_i notTrue
              exact agrees_weaken ih fun result taken => .refused first matched guarded accepts
                (fun isTrue => notTrue (sameValue_true_iff.mpr isTrue)) taken

theorem agrees_evaluateCase (isCase : e.kind = .caseOf) (l : Locals) :
    Agrees floats otherForm constants imported (evaluateCase floats evaluate e l)
      (RunsTo floats otherForm constants imported l e) := by
  refine agrees_bind (agrees_lift fun c child => requiredChild_ok_iff.mp child)
    (fun _ => extends_bind (grows _ _) fun _ => grows_evaluateClauses floats grows _ _ l) fun c child => ?_
  refine agrees_bind (agrees c l) (fun _ => grows_evaluateClauses floats grows _ _ l) fun v runs => ?_
  exact agrees_weaken (agrees_evaluateClauses grows agrees _ v l) fun result taken =>
    .caseOf isCase child runs taken

theorem agrees_evaluateForm (e : SyntaxExprOutput) (l : Locals) :
    Agrees floats otherForm constants imported (evaluateForm floats constants evaluate e l)
      (RunsTo floats otherForm constants imported l e) := by
  unfold evaluateForm
  split
  · rename_i isInt
    exact agrees_lift fun v literal => runsTo_intLiteral isInt literal
  · rename_i isFloat
    exact agrees_lift fun v literal => runsTo_floatLiteral isFloat literal
  · rename_i isBinary
    exact agrees_pure (.binary isBinary)
  · rename_i isAtom
    exact agrees_lift fun v literal => runsTo_atomLiteral isAtom literal
  · rename_i isVar
    exact agrees_evaluateVar agrees isVar l
  · rename_i isField
    exact agrees_evaluateFieldAccess grows agrees isField l
  · rename_i isTuple
    exact agrees_map (agrees_weaken (agrees_evaluateSequence grows agrees _ l) fun _ => .tuple isTuple)
  · rename_i isList
    exact agrees_map (agrees_weaken (agrees_evaluateSequence grows agrees _ l) fun _ => .list isList)
  · rename_i isArray
    exact agrees_map (agrees_weaken (agrees_evaluateSequence grows agrees _ l) fun _ => .array isArray)
  · rename_i isMap
    exact agrees_map (agrees_weaken (agrees_evaluateFields grows agrees _ l _) fun _ => .map isMap)
  · rename_i isRecord
    exact agrees_map (agrees_weaken (agrees_evaluateFields grows agrees _ l _) fun _ => .record isRecord)
  · rename_i isIndex
    exact agrees_evaluateIndex grows agrees isIndex l
  · rename_i isUnary
    exact agrees_evaluateUnary grows agrees isUnary l
  · rename_i isBinary
    exact agrees_evaluateBinary grows agrees isBinary l
  · rename_i isCall
    exact agrees_evaluateCall grows agrees (.inl isCall) l
  · rename_i isCall
    exact agrees_evaluateCall grows agrees (.inr isCall) l
  · rename_i isLet
    exact agrees_evaluateLet grows agrees isLet l
  · rename_i isCase
    exact agrees_evaluateCase grows agrees isCase l
  · rename_i isSequence
    exact agrees_weaken (agrees_evaluateInOrder grows agrees _ _ l) fun _ => .sequence isSequence
  · exact agrees_throw _

end form

theorem agrees_evaluateExpr (depth : Nat) (e : SyntaxExprOutput) (l : Locals) :
    Agrees floats otherForm constants imported (evaluateExpr floats constants depth e l)
      (RunsTo floats otherForm constants imported l e) := by
  induction depth generalizing e l with
  | zero => exact agrees_throw _
  | succ depth ih =>
    exact agrees_bind agrees_tick
      (fun _ => grows_evaluateForm floats (grows_evaluateExpr floats depth) e l)
      fun _ _ => agrees_evaluateForm (grows_evaluateExpr floats depth) ih e l

/-! ## Runs of an evaluator -/

/-- Before anything is evaluated only the imported values are known. -/
def Evaluator.start (imported : ConstValues) : Evaluator := ⟨imported, [], 0, []⟩

/-- States of an evaluator that has evaluated names and expressions one after another, each to a
value or to a diagnostic. -/
inductive Reached (floats : FloatText) (constants : Constants) (imported : ConstValues) :
    Evaluator → Prop
  | start : Reached floats constants imported (Evaluator.start imported)
  | named {s : Evaluator} (depth : Nat) (name : String) : Reached floats constants imported s →
      Reached floats constants imported
        ((evaluateNamed constants (evaluateExpr floats constants depth) name).call s).1
  | expr {s : Evaluator} (depth : Nat) (e : SyntaxExprOutput) (l : Locals) :
      Reached floats constants imported s →
      Reached floats constants imported ((evaluateExpr floats constants depth e l).call s).1

/-- What an evaluator remembers is right as long as its decisions are. -/
theorem Reached.held {s : Evaluator} (reached : Reached floats constants imported s)
    (decided : AllDecided floats otherForm constants imported s) :
    Held floats otherForm constants imported s := by
  induction reached with
  | start => exact ⟨fun _ _ remembered => .imported remembered, fun _ isImported => isImported⟩
  | @named s depth name _ ih =>
    have noted : s.tried <:+
        ((evaluateNamed constants (evaluateExpr floats constants depth) name).call s).1.tried :=
      grows_evaluateNamed (grows_evaluateExpr floats depth) name s
    exact (agrees_evaluateNamed (agrees_evaluateExpr depth) name s _ _ rfl
      (ih (decided.of_suffix noted)) decided).1
  | @expr s depth e l _ ih =>
    have noted : s.tried <:+ ((evaluateExpr floats constants depth e l).call s).1.tried :=
      grows_evaluateExpr floats depth e l s
    exact (agrees_evaluateExpr depth e l s _ _ rfl (ih (decided.of_suffix noted)) decided).1

end rules

end agreement

/-! ## A clause that is skipped -/

namespace Skipped

def floats : FloatText := ⟨fun _ => none, fun _ => ""⟩

def otherForm (_ : SyntaxPatternOutput) (_ : ConstValue) (_ : Locals) : Option Locals := none

/-- A module without constants and functions. -/
def constants : Constants := ⟨fun _ => none, fun _ => none, fun _ => false, fun _ _ => .ok ()⟩

def leaf (kind : SyntaxExprKind) (text : String) : SyntaxExprOutput :=
  .node ⟨kind, 0, some text, none, none, none, [], [], []⟩ [] [] [] [] [] none []

def binder (name : String) : SyntaxPatternOutput := .node .var 0 (some name) [] []

/-- `["a"]`. -/
def scrutinee : SyntaxExprOutput :=
  .node ⟨.list, 1, none, none, none, none, [], [], []⟩ [leaf .binary "a"] [] [] [] [] none []

/-- `case ["a"] { pattern -> :first; other -> :second }`. -/
def caseOf (pattern : SyntaxPatternOutput) : SyntaxExprOutput :=
  .node ⟨.caseOf, 1, none, none, none, none, [], [], []⟩ [scrutinee] [] []
    [⟨[pattern], none, leaf .atom "first"⟩, ⟨[binder "other"], none, leaf .atom "second"⟩] [] none []

/-- `[head | tail]`. -/
def headAndTail : SyntaxPatternOutput :=
  .node .listCons 2 none [binder "head", binder "tail"] []

def noLocals : Locals := fun _ => none

def noValues : ConstValues := fun _ => none

end Skipped

variable {v : ConstValue}

open Skipped in
theorem runsTo_scrutinee_iff :
    RunsTo floats otherForm constants noValues noLocals scrutinee v ↔ v = .list [.binary "a"] := by
  constructor
  · intro run
    cases run with
    | list isList runsAll =>
      rcases runsAll with _ | ⟨first, rest⟩
      cases rest
      cases first with
      | binary => rfl
      | _ => contradiction
    | _ => contradiction
  · rintro rfl
    exact .list rfl (.cons (.binary rfl) .nil)

open Skipped in
theorem runsTo_first_iff {l : Locals} :
    RunsTo floats otherForm constants noValues l (leaf .atom "first") v ↔ v = .atom "first" := by
  have valued : atomValue "first" = .atom "first" := by simp [atomValue]
  rw [← valued]
  constructor
  · intro run
    cases run with
    | atom isAtom spelled =>
      cases spelled
      rfl
    | _ => contradiction
  · rintro rfl
    exact .atom rfl rfl

open Skipped in
theorem runsTo_caseOf_headAndTail_iff :
    RunsTo floats otherForm constants noValues noLocals (caseOf headAndTail) v ↔ v = .atom "first" := by
  constructor
  · intro run
    cases run with
    | caseOf isCase child runs clauses =>
      cases child
      cases runsTo_scrutinee_iff.mp runs
      cases clauses with
      | noPattern none => exact absurd none nofun
      | skipped first none =>
        cases first
        exact absurd none nofun
      | refused first matched guarded => exact absurd guarded nofun
      | taken first matched guarded body => exact runsTo_first_iff.mp body
    | call isCall => rcases isCall with isCall | isCall <;> exact absurd isCall nofun
    | _ => contradiction
  · rintro rfl
    exact .caseOf rfl rfl (runsTo_scrutinee_iff.mpr rfl)
      (.taken rfl rfl (fun _ isGuard => absurd isGuard nofun) (runsTo_first_iff.mpr rfl))

end Terlan.ValueLifecycle
