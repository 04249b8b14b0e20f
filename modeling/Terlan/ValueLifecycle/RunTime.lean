/-
  What constant expressions mean when they are evaluated at run time: the right operand of
  `and` and `or` runs only when it is needed, floats are compared as IEEE numbers, every form
  of pattern matches, bindings have their guards, arguments go to the parameters they name,
  and locals come before constants.

  Forms of pattern that are compared with types or bytes (constructors, text and binary
  layouts) are a parameter. The alternatives of a `let` whose pattern is refuted are left out.
-/
import Terlan.ValueLifecycle.Evaluator
import Terlan.ValueLifecycle.Scope

namespace Terlan.ValueLifecycle

open Terlan.Syntax

/-! ## Values -/

def floatIsNan (bits : UInt64) : Bool :=
  bits &&& 0x7FF0000000000000 == 0x7FF0000000000000 && bits &&& 0x000FFFFFFFFFFFFF != 0

def floatIsZero (bits : UInt64) : Bool := bits &&& 0x7FFFFFFFFFFFFFFF == 0

/-- Equality of IEEE numbers: not-a-number differs from everything, the zeros are equal. -/
def floatEqual (a b : UInt64) : Bool :=
  !floatIsNan a && !floatIsNan b && (a == b || floatIsZero a && floatIsZero b)

mutual

def equalValue : ConstValue → ConstValue → Bool
  | .int a, .int b => a == b
  | .float a, .float b => floatEqual a b
  | .bool a, .bool b => a == b
  | .atom a, .atom b => a == b
  | .binary a, .binary b => a == b
  | .tuple as, .tuple bs => equalValues as bs
  | .list as, .list bs => equalValues as bs
  | .array as, .array bs => equalValues as bs
  | .map as, .map bs => equalEntries as bs
  | .record a as, .record b bs => a == b && equalEntries as bs
  | .union a arm value, .union b other representation =>
    a == b && arm == other && equalValue value representation
  | _, _ => false

def equalValues : List ConstValue → List ConstValue → Bool
  | [], [] => true
  | a :: as, b :: bs => equalValue a b && equalValues as bs
  | _, _ => false

def equalEntries : List (ConstEntry ConstValue) → List (ConstEntry ConstValue) → Bool
  | [], [] => true
  | ⟨key, a⟩ :: as, ⟨other, b⟩ :: bs => key == other && equalValue a b && equalEntries as bs
  | _, _ => false

end

def isEquality (operator : Option String) : Prop :=
  operator ∈ [some "==", some "===", some "!=", some "!=="]

def runInts (f : Int → Int → Option ConstValue) : ConstValue → ConstValue → Option ConstValue
  | .int a, .int b => f a b
  | _, _ => none

/-- Strict operators on two values, with checked 64-bit integers. -/
def runBinary (operator : Option String) (left right : ConstValue) : Option ConstValue :=
  match operator with
  | some "+" => runInts (fun a b => (checkedInt (a + b)).map .int) left right
  | some "-" => runInts (fun a b => (checkedInt (a - b)).map .int) left right
  | some "*" => runInts (fun a b => (checkedInt (a * b)).map .int) left right
  | some "div" | some "/" => runInts (fun a b => (checkedDiv a b).map .int) left right
  | some "rem" => runInts (fun a b => (checkedRem a b).map .int) left right
  | some "==" | some "===" => some (.bool (equalValue left right))
  | some "!=" | some "!==" => some (.bool !equalValue left right)
  | some "<" => runInts (fun a b => some (.bool (decide (a < b)))) left right
  | some ">" => runInts (fun a b => some (.bool (decide (a > b)))) left right
  | some "<=" => runInts (fun a b => some (.bool (decide (a ≤ b)))) left right
  | some ">=" => runInts (fun a b => some (.bool (decide (a ≥ b)))) left right
  | _ => none

def runUnary (operator : Option String) (value : ConstValue) : Option ConstValue :=
  match operator, value with
  | some "-", .int value => (checkedInt (-value)).map .int
  | some "not", .bool value => some (.bool !value)
  | _, _ => none

def atomValue (text : String) : ConstValue :=
  if text = "true" then .bool true else if text = "false" then .bool false else .atom text

/-! ## Patterns -/

section patterns

variable (floats : FloatText)
  (otherForm : SyntaxPatternOutput → ConstValue → Locals → Option Locals)

mutual

/-- Matching at run time, with the locals extended by what the pattern binds. -/
def runMatch : SyntaxPatternOutput → ConstValue → Locals → Option Locals
  | .node kind arity text children fields, value, locals =>
    match kind, value with
    | .wildcard, _ | .ignore, _ => some locals
    | .var, value => some (match text with | some name => locals.bind name value | none => locals)
    | .int, .int actual => if text.bind parseI64 = some actual then some locals else none
    | .float, .float actual =>
      match text.bind floats.parse with
      | some expected => if floatEqual expected actual then some locals else none
      | none => none
    | .string, .binary actual => if text = some actual then some locals else none
    | .atom, .bool actual =>
      if text = some (if actual then "true" else "false") then some locals else none
    | .atom, .atom actual => if text = some actual then some locals else none
    | .tuple, .tuple values =>
      if children.length = values.length then runMatches children values locals else none
    | .list, .list values =>
      if children.length = values.length then runMatches children values locals else none
    | .listCons, .list (head :: tail) =>
      if children.length = 2 then runMatches children [head, .list tail] locals else none
    | .aliasOf, value =>
      match text, runMatches children [value] locals with
      | some name, some locals => some (locals.bind name value)
      | _, _ => none
    | .map, .map entries => runFields fields entries locals
    | .record, .record name entries => if text = some name then runFields fields entries locals else none
    | .int, _ | .float, _ | .string, _ | .atom, _ | .tuple, _ | .list, _ | .listCons, _ | .map, _
    | .record, _ => none
    | _, value => otherForm (.node kind arity text children fields) value locals

def runMatches : List SyntaxPatternOutput → List ConstValue → Locals → Option Locals
  | pattern :: patterns, value :: values, locals =>
    match runMatch pattern value locals with
    | some locals => runMatches patterns values locals
    | none => none
  | _, _, locals => some locals

/-- Every field of the pattern has to be present. -/
def runFields : List (SyntaxPatternFieldOutput SyntaxPatternOutput) → List (ConstEntry ConstValue) →
    Locals → Option Locals
  | [], _, locals => some locals
  | ⟨key, _, pattern⟩ :: fields, entries, locals =>
    match lookupEntry key entries with
    | some value =>
      match runMatch pattern value locals with
      | some locals => runFields fields entries locals
      | none => none
    | none => none

end

end patterns

/-! ## Calls -/

/-- The argument for a parameter: by position among the leading arguments without a name, and
after them by name. -/
def argFor (argNames : List (Option String)) (args : List ConstValue) (param : String × Nat) :
    Option ConstValue :=
  if param.2 < (argNames.takeWhile (· = none)).length then args[param.2]?
  else ((argNames.zip args).find? fun arg => arg.1 = some param.1).map (·.2)

/-- Arguments in the order of the parameters. -/
def arrangeArgs (params : List String) (argNames : List (Option String)) (args : List ConstValue) :
    Option (List ConstValue) :=
  if argNames.all (· = none) then some args else params.zipIdx.mapM (argFor argNames args)

/-! ## Expressions -/

section runs

variable (floats : FloatText)
  (otherForm : SyntaxPatternOutput → ConstValue → Locals → Option Locals)
  (constants : Constants) (imported : ConstValues)

def isConstant (name : String) : Prop :=
  (constants.definitions name).isSome ∨ (imported name).isSome

/-- A path that names a constant, with none of its names bound. -/
def IsConstantPath (expr : SyntaxExprOutput) (locals : Locals) (name : String) : Prop :=
  qualifiedExprName expr = some name ∧ isConstant constants imported name ∧
    ∀ root ∈ referencedNames expr, locals root = none

mutual

/-- Evaluation of an expression with the values of locals. -/
inductive RunsTo : Locals → SyntaxExprOutput → ConstValue → Prop
  | int {l : Locals} {e : SyntaxExprOutput} {n : Int} : e.kind = .int →
      e.text.bind parseI64 = some n → RunsTo l e (.int n)
  | float {l : Locals} {e : SyntaxExprOutput} {bits : UInt64} : e.kind = .float →
      e.text.bind floats.parse = some bits → RunsTo l e (.float bits)
  | binary {l : Locals} {e : SyntaxExprOutput} : e.kind = .binary → RunsTo l e (.binary (e.text.getD ""))
  | atom {l : Locals} {e : SyntaxExprOutput} {text : String} : e.kind = .atom → e.text = some text →
      RunsTo l e (atomValue text)
  | truth {l : Locals} {e : SyntaxExprOutput} : e.kind = .var → e.text.getD "" = "true" →
      RunsTo l e (.bool true)
  | falsity {l : Locals} {e : SyntaxExprOutput} : e.kind = .var → e.text.getD "" = "false" →
      RunsTo l e (.bool false)
  | held {l : Locals} {e : SyntaxExprOutput} {v : ConstValue} : e.kind = .var →
      e.text.getD "" ≠ "true" → e.text.getD "" ≠ "false" → l (e.text.getD "") = some v → RunsTo l e v
  | constant {l : Locals} {e : SyntaxExprOutput} {v : ConstValue} : e.kind = .var →
      e.text.getD "" ≠ "true" → e.text.getD "" ≠ "false" → l (e.text.getD "") = none →
      Names (e.text.getD "") v → RunsTo l e v
  | path {l : Locals} {e : SyntaxExprOutput} {name : String} {v : ConstValue} : e.kind = .fieldAccess →
      IsConstantPath constants imported e l name → Names name v → RunsTo l e v
  | field {l : Locals} {e c : SyntaxExprOutput} {owner v : ConstValue} : e.kind = .fieldAccess →
      (∀ name, ¬ IsConstantPath constants imported e l name) → e.children[0]? = some c →
      RunsTo l c owner → fieldOf (e.text.getD "") owner = .ok v → RunsTo l e v
  | tuple {l : Locals} {e : SyntaxExprOutput} {vs : List ConstValue} : e.kind = .tuple →
      RunsAll l e.children vs → RunsTo l e (.tuple vs)
  | list {l : Locals} {e : SyntaxExprOutput} {vs : List ConstValue} : e.kind = .list →
      RunsAll l e.children vs → RunsTo l e (.list vs)
  | array {l : Locals} {e : SyntaxExprOutput} {vs : List ConstValue} : e.kind = .array →
      RunsAll l e.children vs → RunsTo l e (.array vs)
  | map {l : Locals} {e : SyntaxExprOutput} {entries : List (ConstEntry ConstValue)} : e.kind = .map →
      RunsFields l e.fields [] entries → RunsTo l e (.map entries)
  | record {l : Locals} {e : SyntaxExprOutput} {entries : List (ConstEntry ConstValue)} :
      e.kind = .recordConstruct → RunsFields l e.fields [] entries →
      RunsTo l e (.record (e.text.getD "") entries)
  | index {l : Locals} {e c d : SyntaxExprOutput} {collection position v : ConstValue} :
      e.kind = .index → e.children[0]? = some c → e.children[1]? = some d → RunsTo l c collection →
      RunsTo l d position → elementOf collection position = .ok v → RunsTo l e v
  | unary {l : Locals} {e c : SyntaxExprOutput} {v w : ConstValue} : e.kind = .unaryOp →
      e.children[0]? = some c → RunsTo l c v → runUnary e.operator v = some w → RunsTo l e w
  | conjunctionStops {l : Locals} {e c : SyntaxExprOutput} : e.kind = .binaryOp →
      e.operator = some "and" → e.children[0]? = some c → RunsTo l c (.bool false) →
      RunsTo l e (.bool false)
  | conjunction {l : Locals} {e c d : SyntaxExprOutput} {b : Bool} : e.kind = .binaryOp →
      e.operator = some "and" → e.children[0]? = some c → e.children[1]? = some d →
      RunsTo l c (.bool true) → RunsTo l d (.bool b) → RunsTo l e (.bool b)
  | disjunctionStops {l : Locals} {e c : SyntaxExprOutput} : e.kind = .binaryOp →
      e.operator = some "or" → e.children[0]? = some c → RunsTo l c (.bool true) →
      RunsTo l e (.bool true)
  | disjunction {l : Locals} {e c d : SyntaxExprOutput} {b : Bool} : e.kind = .binaryOp →
      e.operator = some "or" → e.children[0]? = some c → e.children[1]? = some d →
      RunsTo l c (.bool false) → RunsTo l d (.bool b) → RunsTo l e (.bool b)
  | strict {l : Locals} {e c d : SyntaxExprOutput} {v w result : ConstValue} : e.kind = .binaryOp →
      e.operator ≠ some "and" → e.operator ≠ some "or" → e.children[0]? = some c →
      e.children[1]? = some d → RunsTo l c v → RunsTo l d w →
      runBinary e.operator v w = some result → RunsTo l e result
  | call {l : Locals} {e callee : SyntaxExprOutput} {localName : String}
      {args arranged : List ConstValue} {function : ConstFunction} {v : ConstValue} :
      e.kind = .call ∨ e.kind = .functionCall → e.children[0]? = some callee →
      qualifiedExprName callee = some localName → RunsAll l (e.children.drop 1) args →
      constants.functions (calledName e localName, args.length) = some function →
      arrangeArgs function.params e.argNames args = some arranged →
      RunsTo (bindParams function.params arranged) function.body v → RunsTo l e v
  | letIn {l scope : Locals} {e body : SyntaxExprOutput} {v : ConstValue} : e.kind = .letIn →
      RunsBindings e (e.patterns.take (min e.arity e.patterns.length)) 0 l scope →
      e.children[min e.arity e.patterns.length]? = some body → RunsTo scope body v → RunsTo l e v
  | caseOf {l : Locals} {e c : SyntaxExprOutput} {v result : ConstValue} : e.kind = .caseOf →
      e.children[0]? = some c → RunsTo l c v → RunsClauses l e.clauses v result → RunsTo l e result
  | sequence {l : Locals} {e : SyntaxExprOutput} {v : ConstValue} : e.kind = .sequence →
      RunsInOrder l e.children (.tuple []) v → RunsTo l e v

/-- The value that a name of a constant stands for. -/
inductive Names : String → ConstValue → Prop
  | imported {name : String} {v : ConstValue} : imported name = some v → Names name v
  | defined {name : String} {definition : ConstDefinition} {v : ConstValue} : imported name = none →
      constants.definitions name = some definition →
      RunsTo (fun _ => none) definition.expression v → Names name (definition.wrap v)

inductive RunsAll : Locals → List SyntaxExprOutput → List ConstValue → Prop
  | nil {l : Locals} : RunsAll l [] []
  | cons {l : Locals} {e : SyntaxExprOutput} {es : List SyntaxExprOutput} {v : ConstValue}
      {vs : List ConstValue} : RunsTo l e v → RunsAll l es vs → RunsAll l (e :: es) (v :: vs)

inductive RunsFields : Locals → List (SyntaxExprFieldOutput SyntaxExprOutput) →
    List (ConstEntry ConstValue) → List (ConstEntry ConstValue) → Prop
  | nil {l : Locals} {entries : List (ConstEntry ConstValue)} : RunsFields l [] entries entries
  | cons {l : Locals} {field : SyntaxExprFieldOutput SyntaxExprOutput}
      {fields : List (SyntaxExprFieldOutput SyntaxExprOutput)} {v : ConstValue}
      {entries after : List (ConstEntry ConstValue)} : RunsTo l field.value v →
      RunsFields l fields (insertEntry field.key v entries) after →
      RunsFields l (field :: fields) entries after

/-- Bindings from an index on, each in the scope of those before it and with its guard. -/
inductive RunsBindings : SyntaxExprOutput → List SyntaxPatternOutput → Nat → Locals → Locals → Prop
  | nil {e : SyntaxExprOutput} {index : Nat} {l : Locals} : RunsBindings e [] index l l
  | cons {e c : SyntaxExprOutput} {pattern : SyntaxPatternOutput}
      {patterns : List SyntaxPatternOutput} {index : Nat} {l scope after : Locals} {v : ConstValue} :
      e.children[index]? = some c → RunsTo l c v → runMatch floats otherForm pattern v l = some scope →
      (∀ guard, e.letGuards[index]? = some (some guard) → RunsTo scope guard (.bool true)) →
      RunsBindings e patterns (index + 1) scope after → RunsBindings e (pattern :: patterns) index l after

/-- The body of the first clause whose pattern and guard take the value. -/
inductive RunsClauses : Locals → List (SyntaxClauseOutput SyntaxExprOutput) → ConstValue →
    ConstValue → Prop
  | noPattern {l : Locals} {clause : SyntaxClauseOutput SyntaxExprOutput}
      {clauses : List (SyntaxClauseOutput SyntaxExprOutput)} {v result : ConstValue} :
      clause.patterns = [] → RunsClauses l clauses v result → RunsClauses l (clause :: clauses) v result
  | skipped {l : Locals} {clause : SyntaxClauseOutput SyntaxExprOutput}
      {clauses : List (SyntaxClauseOutput SyntaxExprOutput)} {pattern : SyntaxPatternOutput}
      {v result : ConstValue} : clause.patterns.head? = some pattern →
      runMatch floats otherForm pattern v l = none → RunsClauses l clauses v result →
      RunsClauses l (clause :: clauses) v result
  | refused {l scope : Locals} {clause : SyntaxClauseOutput SyntaxExprOutput}
      {clauses : List (SyntaxClauseOutput SyntaxExprOutput)} {pattern : SyntaxPatternOutput}
      {guard : SyntaxExprOutput} {v w result : ConstValue} : clause.patterns.head? = some pattern →
      runMatch floats otherForm pattern v l = some scope → clause.guard = some guard →
      RunsTo scope guard w → w ≠ .bool true → RunsClauses l clauses v result →
      RunsClauses l (clause :: clauses) v result
  | taken {l scope : Locals} {clause : SyntaxClauseOutput SyntaxExprOutput}
      {clauses : List (SyntaxClauseOutput SyntaxExprOutput)} {pattern : SyntaxPatternOutput}
      {v result : ConstValue} : clause.patterns.head? = some pattern →
      runMatch floats otherForm pattern v l = some scope →
      (∀ guard, clause.guard = some guard → RunsTo scope guard (.bool true)) →
      RunsTo scope clause.body result → RunsClauses l (clause :: clauses) v result

inductive RunsInOrder : Locals → List SyntaxExprOutput → ConstValue → ConstValue → Prop
  | nil {l : Locals} {last : ConstValue} : RunsInOrder l [] last last
  | cons {l : Locals} {e : SyntaxExprOutput} {es : List SyntaxExprOutput} {last v result : ConstValue} :
      RunsTo l e v → RunsInOrder l es v result → RunsInOrder l (e :: es) last result

end

end runs

end Terlan.ValueLifecycle
