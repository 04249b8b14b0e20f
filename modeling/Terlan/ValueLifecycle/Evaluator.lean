/-
  The evaluator of constants: an interpreter of expressions that runs while a module is
  compiled, with its own operators, pattern matcher and selection of clauses, a memory of the
  constants evaluated so far, and a limit on the number of its steps.

  The evaluator also notes, in `tried`, the decisions it takes where another interpreter could
  decide otherwise. The notes have no part in evaluation. Spans are left out of diagnostics.
-/
import Terlan.Lib.Method
import Terlan.ValueLifecycle.Substitution

namespace Terlan.ValueLifecycle

open Terlan.Lib
open Terlan.Syntax

/-! ## Values -/

mutual

/-- Equality of values, with floats compared as bits. -/
def sameValue : ConstValue → ConstValue → Bool
  | .int a, .int b => a == b
  | .float a, .float b => a == b
  | .bool a, .bool b => a == b
  | .atom a, .atom b => a == b
  | .binary a, .binary b => a == b
  | .tuple as, .tuple bs => sameValues as bs
  | .list as, .list bs => sameValues as bs
  | .array as, .array bs => sameValues as bs
  | .map as, .map bs => sameEntries as bs
  | .record a as, .record b bs => a == b && sameEntries as bs
  | .union a arm value, .union b other representation =>
    a == b && arm == other && sameValue value representation
  | _, _ => false

def sameValues : List ConstValue → List ConstValue → Bool
  | [], [] => true
  | a :: as, b :: bs => sameValue a b && sameValues as bs
  | _, _ => false

def sameEntries : List (ConstEntry ConstValue) → List (ConstEntry ConstValue) → Bool
  | [], [] => true
  | ⟨key, a⟩ :: as, ⟨other, b⟩ :: bs => key == other && sameValue a b && sameEntries as bs
  | _, _ => false

end

def ConstValue.typeName : ConstValue → String
  | .int _ => "Int"
  | .float _ => "Float"
  | .bool _ => "Bool"
  | .atom _ => "Atom"
  | .binary _ => "String"
  | .tuple _ => "Tuple"
  | .list _ => "List"
  | .array _ => "Array"
  | .map _ => "Map"
  | .record name _ => name
  | .union name _ _ => name

mutual

def ConstValue.size : ConstValue → Nat
  | .int _ | .float _ | .bool _ => 8
  | .atom value | .binary value => value.utf8ByteSize
  | .tuple values | .list values | .array values => sizes values
  | .map values => entrySizes values
  | .record name fields => name.utf8ByteSize + entrySizes fields
  | .union _ _ representation => representation.size

def ConstValue.sizes : List ConstValue → Nat
  | [] => 0
  | value :: values => value.size + sizes values

def ConstValue.entrySizes : List (ConstEntry ConstValue) → Nat
  | [] => 0
  | ⟨key, value⟩ :: entries => key.utf8ByteSize + value.size + entrySizes entries

end

def lookupEntry (key : String) (entries : List (ConstEntry ConstValue)) : Option ConstValue :=
  (entries.find? fun entry => entry.key == key).map (·.value)

/-- Inserts into entries in the order of their keys; an entry of the same key is replaced. -/
def insertEntry (key : String) (value : ConstValue) :
    List (ConstEntry ConstValue) → List (ConstEntry ConstValue)
  | [] => [⟨key, value⟩]
  | entry :: entries =>
    if key < entry.key then ⟨key, value⟩ :: entry :: entries
    else if key = entry.key then ⟨key, value⟩ :: entries
    else entry :: insertEntry key value entries

/-! ## Numbers -/

/-- The result of an operation on 64-bit integers, when it is one. -/
def checkedInt (value : Int) : Option Int :=
  if -9223372036854775808 ≤ value ∧ value ≤ 9223372036854775807 then some value else none

def checkedDiv (a b : Int) : Option Int := if b = 0 then none else checkedInt (a.tdiv b)

def checkedRem (a b : Int) : Option Int :=
  if b = 0 ∨ (a = -9223372036854775808 ∧ b = -1) then none else some (a.tmod b)

def parseDigits (digits : List Char) : Option Nat :=
  if digits ≠ [] ∧ digits.all Char.isDigit then
    some (digits.foldl (fun value digit => 10 * value + (digit.toNat - '0'.toNat)) 0)
  else none

/-- Decimal text of a 64-bit integer, with or without a sign. -/
def parseI64 (text : String) : Option Int :=
  match text.toList with
  | '-' :: digits => (parseDigits digits).bind fun value => checkedInt (-value)
  | '+' :: digits => (parseDigits digits).bind fun value => checkedInt value
  | digits => (parseDigits digits).bind fun value => checkedInt value

/-- Text of floats, as the standard library reads and writes it. -/
structure FloatText where
  parse : String → Option UInt64
  format : UInt64 → String

/-! ## Diagnostics -/

structure ValueLifecycleDiagnostic where
  code : String
  message : String

def diagnostic (code message : String) : ValueLifecycleDiagnostic := ⟨code, message⟩

def notConst (form : String) : ValueLifecycleDiagnostic :=
  diagnostic "CONST_FORBIDDEN_EFFECT" ("constant evaluation cannot perform " ++ form ++
    "; environment, files, clocks, randomness, networks, native resources, runtime configuration, and secrets are unavailable")

def constForbiddenForm : SyntaxExprKind → String
  | .rawMacro | .macroCall => "macro execution after expansion"
  | .indexAssign | .recordUpdate => "mutation"
  | .funOf | .remoteFunRef => "closure or function identity"
  | .tryOf => "exception handling"
  | .htmlBlock | .templateInstantiate => "asset or template execution"
  | _ => "runtime-dependent expression"

def trim (text : String) : String :=
  String.ofList ((text.toList.dropWhile Char.isWhitespace).reverse.dropWhile Char.isWhitespace).reverse

def isListOf (expected : String) : ConstValue → Bool
  | .list _ => expected.startsWith "List["
  | .array _ => expected.startsWith "Array["
  | .tuple _ => expected.startsWith "\x7b"
  | .map _ => expected.startsWith "Map["
  | .record name _ => name == expected
  | _ => false

def ensureType (expected : String) (value : ConstValue) : Except ValueLifecycleDiagnostic Unit :=
  let expected := trim expected
  if expected = value.typeName ∨ isListOf expected value then .ok ()
  else .error (diagnostic "CONST_TYPE_MISMATCH"
    ("constant declared as `" ++ expected ++ "` evaluated to `" ++ value.typeName ++ "`"))

/-! ## Patterns -/

/-- The values of local names. -/
abbrev Locals := String → Option ConstValue

def Locals.bind (locals : Locals) (name : String) (value : ConstValue) : Locals :=
  Function.update locals name (some value)

section patterns

variable (floats : FloatText)

mutual

/-- Matching of the evaluator, with the locals extended by what the pattern binds. Forms that
it does not know do not match. -/
def matchPattern : SyntaxPatternOutput → ConstValue → Locals → Option Locals
  | .node kind _ text children _, value, locals =>
    match kind, value with
    | .wildcard, _ | .ignore, _ => some locals
    | .var, value => some (match text with | some name => locals.bind name value | none => locals)
    | .int, .int actual => if text = some (toString actual) then some locals else none
    | .float, .float actual => if text = some (floats.format actual) then some locals else none
    | .string, .binary actual => if text = some actual then some locals else none
    | .atom, .bool actual =>
      if text = some (if actual then "true" else "false") then some locals else none
    | .atom, .atom actual => if text = some actual then some locals else none
    | .tuple, .tuple values =>
      if children.length = values.length then matchPatterns children values locals else none
    | .list, .list values =>
      if children.length = values.length then matchPatterns children values locals else none
    | _, _ => none

def matchPatterns : List SyntaxPatternOutput → List ConstValue → Locals → Option Locals
  | pattern :: patterns, value :: values, locals =>
    match matchPattern pattern value locals with
    | some locals => matchPatterns patterns values locals
    | none => none
  | _, _, locals => some locals

end

end patterns

/-! ## The evaluator -/

structure ConstDefinition where
  typeName : String
  expression : SyntaxExprOutput
  unionArm : Option (String × String)

structure ConstFunction where
  params : List String
  returnType : String
  body : SyntaxExprOutput

/-- What the evaluator is given: the constants of the module, the constant functions in scope,
which of those are of the module, and the evidence that they terminate. -/
structure Constants where
  definitions : String → Option ConstDefinition
  functions : String × Nat → Option ConstFunction
  localFunctions : String × Nat → Bool
  requireTotal : String → Nat → Except String Unit

/-- A decision of the evaluator. -/
inductive Decision where
  | pattern (pattern : SyntaxPatternOutput) (value : ConstValue) (locals : Locals)
  | binary (operator : Option String) (left right : ConstValue)
  /-- A path is read as the name of a constant. -/
  | path (expr : SyntaxExprOutput) (locals : Locals)
  /-- The guard of a binding is passed over. -/
  | letGuard (guard : SyntaxExprOutput) (locals : Locals)
  | call (params : List String) (argNames : List (Option String)) (args : List ConstValue)

structure Evaluator where
  values : ConstValues
  active : List String
  steps : Nat
  tried : List Decision

def stepLimit : Nat := 10000

def valueSizeLimit : Nat := 1048576

abbrev Evaluation := Method ValueLifecycleDiagnostic Evaluator

def note (decision : Decision) : Evaluation Unit :=
  modify fun s => { s with tried := decision :: s.tried }

def tick : Evaluation Unit := do
  modify fun s => { s with steps := s.steps + 1 }
  if (← get).steps > stepLimit then
    throw (diagnostic "CONST_EVALUATOR_EXHAUSTED"
      "constant evaluation exceeded the deterministic step limit")

def requiredChild (expr : SyntaxExprOutput) (index : Nat) :
    Except ValueLifecycleDiagnostic SyntaxExprOutput :=
  match expr.children[index]? with
  | some child => .ok child
  | none => .error (diagnostic "CONST_INVALID_EXPRESSION" "malformed constant expression")

def overflow : ValueLifecycleDiagnostic := diagnostic "CONST_OVERFLOW" "integer overflow"

def orOverflow : Option Int → Except ValueLifecycleDiagnostic ConstValue
  | some value => .ok (.int value)
  | none => .error overflow

def unaryValue (operator : Option String) (value : ConstValue) :
    Except ValueLifecycleDiagnostic ConstValue :=
  match operator, value with
  | some "-", .int value => orOverflow (checkedInt (-value))
  | some "not", .bool value => .ok (.bool !value)
  | _, _ => .error (notConst "unsupported const unary operation")

def unsupportedBinary : Except ValueLifecycleDiagnostic ConstValue :=
  .error (notConst "unsupported const binary operation")

def onInts (f : Int → Int → Except ValueLifecycleDiagnostic ConstValue) :
    ConstValue → ConstValue → Except ValueLifecycleDiagnostic ConstValue
  | .int a, .int b => f a b
  | _, _ => unsupportedBinary

def onBools (f : Bool → Bool → Bool) :
    ConstValue → ConstValue → Except ValueLifecycleDiagnostic ConstValue
  | .bool a, .bool b => .ok (.bool (f a b))
  | _, _ => unsupportedBinary

def quotient (a b : Int) : Except ValueLifecycleDiagnostic ConstValue :=
  if b = 0 then .error (diagnostic "CONST_DIVISION_BY_ZERO" "division by zero")
  else orOverflow (checkedDiv a b)

def remainder (a b : Int) : Except ValueLifecycleDiagnostic ConstValue :=
  if b = 0 then .error (diagnostic "CONST_DIVISION_BY_ZERO" "remainder by zero")
  else orOverflow (checkedRem a b)

def binaryValue (operator : Option String) (left right : ConstValue) :
    Except ValueLifecycleDiagnostic ConstValue :=
  match operator with
  | some "+" => onInts (fun a b => orOverflow (checkedInt (a + b))) left right
  | some "-" => onInts (fun a b => orOverflow (checkedInt (a - b))) left right
  | some "*" => onInts (fun a b => orOverflow (checkedInt (a * b))) left right
  | some "div" | some "/" => onInts quotient left right
  | some "rem" => onInts remainder left right
  | some "==" | some "===" => .ok (.bool (sameValue left right))
  | some "!=" | some "!==" => .ok (.bool !sameValue left right)
  | some "and" => onBools (fun a b => a && b) left right
  | some "or" => onBools (fun a b => a || b) left right
  | some "<" => onInts (fun a b => .ok (.bool (decide (a < b)))) left right
  | some ">" => onInts (fun a b => .ok (.bool (decide (a > b)))) left right
  | some "<=" => onInts (fun a b => .ok (.bool (decide (a ≤ b)))) left right
  | some ">=" => onInts (fun a b => .ok (.bool (decide (a ≥ b)))) left right
  | _ => unsupportedBinary

def fieldOf (field : String) : ConstValue → Except ValueLifecycleDiagnostic ConstValue
  | .map fields | .record _ fields =>
    match lookupEntry field fields with
    | some value => .ok value
    | none => .error (diagnostic "CONST_FIELD_MISSING"
        ("constant value has no field `" ++ field ++ "`"))
  | _ => .error (notConst "field access on a non-aggregate constant")

def elementOf (collection index : ConstValue) : Except ValueLifecycleDiagnostic ConstValue :=
  let outside := diagnostic "CONST_INDEX_BOUNDS" "constant aggregate index is out of bounds"
  match index with
  | .int index =>
    if index < 0 then .error outside
    else
      match collection with
      | .tuple values | .list values | .array values =>
        match values[index.toNat]? with
        | some value => .ok value
        | none => .error outside
      | _ => .error (notConst "indexing a non-sequence constant")
  | _ => .error (diagnostic "CONST_INDEX_TYPE" "constant aggregate index must be Int")

section evaluate

variable (floats : FloatText) (constants : Constants)

section form

/- The evaluator one level further down. -/
variable (evaluate : SyntaxExprOutput → Locals → Evaluation ConstValue)

def evaluateSequence (exprs : List SyntaxExprOutput) (locals : Locals) :
    Evaluation (List ConstValue) :=
  match exprs with
  | [] => pure []
  | expr :: exprs => do
    let value ← evaluate expr locals
    return value :: (← evaluateSequence exprs locals)

def evaluateFields (fields : List (SyntaxExprFieldOutput SyntaxExprOutput)) (locals : Locals)
    (entries : List (ConstEntry ConstValue)) : Evaluation (List (ConstEntry ConstValue)) :=
  match fields with
  | [] => pure entries
  | field :: fields => do
    let value ← evaluate field.value locals
    evaluateFields fields locals (insertEntry field.key value entries)

def cycleFrom (name : String) (active : List String) : String :=
  String.intercalate " -> " (active.dropWhile (· ≠ name) ++ [name])

/-- Evaluation under a name that is active meanwhile. -/
def withActive (name : String) (evaluation : Evaluation ConstValue) : Evaluation ConstValue := do
  modify fun s => { s with active := s.active ++ [name] }
  let result ← evaluation.attempt
  modify fun s => { s with active := s.active.dropLast }
  liftM (result : Except ValueLifecycleDiagnostic ConstValue)

def remember (name : String) (value : ConstValue) : Evaluation ConstValue := do
  modify fun s => { s with values := Function.update s.values name (some value) }
  pure value

def ConstDefinition.wrap (definition : ConstDefinition) (value : ConstValue) : ConstValue :=
  match definition.unionArm with
  | some (union, arm) => .union union arm value
  | none => value

def evaluateNamed (name : String) : Evaluation ConstValue := do
  let s ← get
  match s.values name with
  | some value => pure value
  | none =>
    match constants.definitions name with
    | none => throw (diagnostic "UNKNOWN_CONSTANT" ("cannot resolve constant `" ++ name ++ "`"))
    | some definition =>
      if name ∈ s.active then
        throw (diagnostic "CONST_CYCLE" ("constant cycle detected: " ++ cycleFrom name s.active))
      else do
        let value ← withActive name (evaluate definition.expression fun _ => none)
        liftM (ensureType definition.typeName value)
        if value.size > valueSizeLimit then
          throw (diagnostic "CONST_EVALUATOR_EXHAUSTED"
            "constant value exceeded the deterministic output-size limit")
        else remember name (definition.wrap value)

def evaluateVar (name : String) (locals : Locals) : Evaluation ConstValue :=
  if name = "true" then pure (.bool true)
  else if name = "false" then pure (.bool false)
  else
    match locals name with
    | some value => pure value
    | none => evaluateNamed constants evaluate name

def evaluateFieldAccess (expr : SyntaxExprOutput) (locals : Locals) : Evaluation ConstValue := do
  match qualifiedExprName expr with
  | none => throw (notConst "dynamic field access")
  | some name =>
    let s ← get
    if (constants.definitions name).isSome ∨ (s.values name).isSome then do
      note (.path expr locals)
      evaluateNamed constants evaluate name
    else do
      let child ← liftM (requiredChild expr 0)
      let owner ← evaluate child locals
      liftM (fieldOf (expr.text.getD "") owner)

def evaluateIndex (expr : SyntaxExprOutput) (locals : Locals) : Evaluation ConstValue := do
  let child ← liftM (requiredChild expr 0)
  let collection ← evaluate child locals
  let position ← liftM (requiredChild expr 1)
  let index ← evaluate position locals
  liftM (elementOf collection index)

def evaluateUnary (expr : SyntaxExprOutput) (locals : Locals) : Evaluation ConstValue := do
  let child ← liftM (requiredChild expr 0)
  let value ← evaluate child locals
  liftM (unaryValue expr.operator value)

def evaluateBinary (expr : SyntaxExprOutput) (locals : Locals) : Evaluation ConstValue := do
  let first ← liftM (requiredChild expr 0)
  let left ← evaluate first locals
  let second ← liftM (requiredChild expr 1)
  let right ← evaluate second locals
  note (.binary expr.operator left right)
  liftM (binaryValue expr.operator left right)

/-- A constant function of the module has to be proven to terminate, an imported one not to be
active. -/
def requireTermination (name : String) (arity : Nat) : Evaluation Unit := do
  let s ← get
  if constants.localFunctions (name, arity) then
    liftM ((constants.requireTotal name arity).mapError fun message =>
      diagnostic "CONST_TOTALITY_UNPROVEN"
        ("const-function call requires proven termination: " ++ message))
  else if name ++ "/" ++ toString arity ∈ s.active then
    throw (diagnostic "CONST_TOTALITY_UNPROVEN"
      "recursive imported const function lacks validated termination evidence")
  else pure ()

def bindParams (params : List String) (args : List ConstValue) : Locals :=
  (params.zip args).foldl (fun locals param => locals.bind param.1 param.2) fun _ => none

/-- Qualified name that a call is made under. -/
def calledName (expr : SyntaxExprOutput) (localName : String) : String :=
  match expr.remote with
  | some module => module ++ "." ++ localName
  | none => localName

def callFunction (name : String) (argNames : List (Option String)) (args : List ConstValue) :
    Evaluation ConstValue :=
  match constants.functions (name, args.length) with
  | none => throw (notConst ("ordinary function call `" ++ name ++ "`"))
  | some function => do
    requireTermination constants name args.length
    note (.call function.params argNames args)
    let value ← withActive (name ++ "/" ++ toString args.length)
      (evaluate function.body (bindParams function.params args))
    liftM (ensureType function.returnType value)
    pure value

/-- Arguments are taken by position. -/
def evaluateCall (expr : SyntaxExprOutput) (locals : Locals) : Evaluation ConstValue := do
  let callee ← liftM (requiredChild expr 0)
  match qualifiedExprName callee with
  | none => throw (notConst "dynamic function call")
  | some localName => do
    let args ← evaluateSequence evaluate (expr.children.drop 1) locals
    callFunction constants evaluate (calledName expr localName) expr.argNames args

/-- The guard of a binding is not looked at. -/
def noteGuard (expr : SyntaxExprOutput) (index : Nat) (scope : Locals) : Evaluation Unit :=
  match expr.letGuards[index]? with
  | some (some guard) => note (.letGuard guard scope)
  | _ => pure ()

def matchBinding (pattern : SyntaxPatternOutput) (value : ConstValue) (scope : Locals) :
    Except ValueLifecycleDiagnostic Locals :=
  match matchPattern floats pattern value scope with
  | some scope => .ok scope
  | none => .error (diagnostic "CONST_MATCH_ASSERTION_FAILED"
      "refutable let pattern failed during constant evaluation")

/-- The bindings of a `let` from an index on; the rest is the body. -/
def evaluateBindings (expr : SyntaxExprOutput) (patterns : List SyntaxPatternOutput) (index : Nat)
    (scope : Locals) : Evaluation Locals :=
  match patterns with
  | [] => pure scope
  | pattern :: patterns => do
    let child ← liftM (requiredChild expr index)
    let value ← evaluate child scope
    note (.pattern pattern value scope)
    let scope ← liftM (matchBinding floats pattern value scope)
    noteGuard expr index scope
    evaluateBindings expr patterns (index + 1) scope

def evaluateLet (expr : SyntaxExprOutput) (locals : Locals) : Evaluation ConstValue := do
  let bindingCount := min expr.arity expr.patterns.length
  let scope ← evaluateBindings floats evaluate expr (expr.patterns.take bindingCount) 0 locals
  match expr.children[bindingCount]? with
  | some body => evaluate body scope
  | none => throw (diagnostic "CONST_INVALID_EXPRESSION" "const let requires a body")

def evaluateClauses (clauses : List (SyntaxClauseOutput SyntaxExprOutput)) (value : ConstValue)
    (locals : Locals) : Evaluation ConstValue :=
  match clauses with
  | [] => throw (diagnostic "CONST_MATCH_ASSERTION_FAILED" "no const case clause matched")
  | clause :: clauses =>
    match clause.patterns with
    | [] => evaluateClauses clauses value locals
    | pattern :: _ => do
      note (.pattern pattern value locals)
      match matchPattern floats pattern value locals with
      | none => evaluateClauses clauses value locals
      | some scope =>
        match clause.guard with
        | none => evaluate clause.body scope
        | some guard => do
          let accepted ← evaluate guard scope
          if sameValue accepted (.bool true) then evaluate clause.body scope
          else evaluateClauses clauses value locals

def evaluateCase (expr : SyntaxExprOutput) (locals : Locals) : Evaluation ConstValue := do
  let child ← liftM (requiredChild expr 0)
  let value ← evaluate child locals
  evaluateClauses floats evaluate expr.clauses value locals

/-- The value of the last expression of a sequence. -/
def evaluateInOrder (exprs : List SyntaxExprOutput) (last : ConstValue) (locals : Locals) :
    Evaluation ConstValue :=
  match exprs with
  | [] => pure last
  | expr :: exprs => do
    let value ← evaluate expr locals
    evaluateInOrder exprs value locals

def intLiteral (expr : SyntaxExprOutput) : Except ValueLifecycleDiagnostic ConstValue :=
  match expr.text.bind parseI64 with
  | some value => .ok (.int value)
  | none => .error (diagnostic "CONST_INVALID_LITERAL" "invalid integer")

def floatLiteral (expr : SyntaxExprOutput) : Except ValueLifecycleDiagnostic ConstValue :=
  match expr.text.bind floats.parse with
  | some bits => .ok (.float bits)
  | none => .error (diagnostic "CONST_INVALID_LITERAL" "invalid float")

def atomLiteral (expr : SyntaxExprOutput) : Except ValueLifecycleDiagnostic ConstValue :=
  match expr.text with
  | some "true" => .ok (.bool true)
  | some "false" => .ok (.bool false)
  | some value => .ok (.atom value)
  | none => .error (diagnostic "CONST_INVALID_LITERAL" "invalid atom")

def evaluateForm (expr : SyntaxExprOutput) (locals : Locals) : Evaluation ConstValue :=
  match expr.kind with
  | .int => liftM (intLiteral expr)
  | .float => liftM (floatLiteral floats expr)
  | .binary => pure (.binary (expr.text.getD ""))
  | .atom => liftM (atomLiteral expr)
  | .var => evaluateVar constants evaluate (expr.text.getD "") locals
  | .fieldAccess => evaluateFieldAccess constants evaluate expr locals
  | .tuple => ConstValue.tuple <$> evaluateSequence evaluate expr.children locals
  | .list => ConstValue.list <$> evaluateSequence evaluate expr.children locals
  | .array => ConstValue.array <$> evaluateSequence evaluate expr.children locals
  | .map => ConstValue.map <$> evaluateFields evaluate expr.fields locals []
  | .recordConstruct =>
    ConstValue.record (expr.text.getD "") <$> evaluateFields evaluate expr.fields locals []
  | .index => evaluateIndex evaluate expr locals
  | .unaryOp => evaluateUnary evaluate expr locals
  | .binaryOp => evaluateBinary evaluate expr locals
  | .call | .functionCall => evaluateCall constants evaluate expr locals
  | .letIn => evaluateLet floats evaluate expr locals
  | .caseOf => evaluateCase floats evaluate expr locals
  | .sequence => evaluateInOrder evaluate expr.children (.tuple []) locals
  | kind => throw (notConst (constForbiddenForm kind))

end form

/-- Evaluates an expression. Every level counts as a step, so a depth as large as the limit on
steps is never used up before the steps are. -/
def evaluateExpr : Nat → SyntaxExprOutput → Locals → Evaluation ConstValue
  | 0, _, _ => throw (diagnostic "CONST_EVALUATOR_EXHAUSTED"
      "constant evaluation exceeded the deterministic step limit")
  | depth + 1, expr, locals => do
    tick
    evaluateForm floats constants (evaluateExpr depth) expr locals

end evaluate

end Terlan.ValueLifecycle
