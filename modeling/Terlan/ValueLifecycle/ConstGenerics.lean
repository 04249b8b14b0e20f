/-
  Constant arguments of types. A type text names the sizes and flags of a type by constants,
  and before type checking every such argument is replaced, in the text, by the text of its
  value. Here are the functions that cut a type text into its bracket group and arguments, that
  evaluate one argument, and that rewrite a text.

  The generated parser and the debug form of strings are parameters. Offsets count bytes of
  UTF-8, and a cut inside a character is the panic that it is in the source. Spans are left out.
-/
import Mathlib.Data.List.DropRight
import Terlan.Lib.Nesting
import Terlan.Lib.Text
import Terlan.ValueLifecycle.Evaluator

namespace Terlan.ValueLifecycle

open Terlan.Lib
open Terlan.Syntax

/-! ## Type texts -/

abbrev TypeText := List Char

inductive Bracket where
  | square | round | brace
deriving DecidableEq

def bracketMark : Char → Mark Bracket
  | '[' => .opening .square
  | ']' => .closing .square
  | '(' => .opening .round
  | ')' => .closing .round
  | '{' => .opening .brace
  | '}' => .closing .brace
  | _ => .plain

def isComma (c : Char) : Bool := c == ','

/-- `str::trim`. -/
def trimText (text : TypeText) : TypeText :=
  (text.dropWhile isWhitespace).rdropWhile isWhitespace

def byteLength : TypeText → Nat
  | [] => 0
  | c :: text => c.utf8Size + byteLength text

/-- `&text[offset..]`, which panics inside a character and past the end. -/
def sliceFrom : Nat → TypeText → Option TypeText
  | 0, text => some text
  | _ + 1, [] => none
  | offset + 1, c :: text =>
    if c.utf8Size ≤ offset + 1 then sliceFrom (offset + 1 - c.utf8Size) text else none

/-- The text inside a bracket and the text after it, read from behind the opening bracket, where
`depth` square brackets are open. -/
def matchingBracket : Nat → TypeText → Option (TypeText × TypeText)
  | _, [] => none
  | depth, c :: text =>
    if c = '[' then (matchingBracket (depth + 1) text).map fun parts => (c :: parts.1, parts.2)
    else if c = ']' then
      if depth = 0 then none
      else if depth = 1 then some ([], text)
      else (matchingBracket (depth - 1) text).map fun parts => (c :: parts.1, parts.2)
    else (matchingBracket depth text).map fun parts => (c :: parts.1, parts.2)

/-- The text before the first bracket, inside it and after it. -/
def firstGroup (text : TypeText) : Option (TypeText × TypeText × TypeText) :=
  match text.dropWhile (· ≠ '[') with
  | [] => none
  | _ :: rest =>
    (matchingBracket 1 rest).map fun parts => (text.takeWhile (· ≠ '['), parts.1, parts.2)

structure Depths where
  square : Nat := 0
  round : Nat := 0
  brace : Nat := 0
deriving DecidableEq

def Depths.after (depths : Depths) : Char → Depths
  | '[' => { depths with square := depths.square + 1 }
  | ']' => { depths with square := depths.square - 1 }
  | '(' => { depths with round := depths.round + 1 }
  | ')' => { depths with round := depths.round - 1 }
  | '{' => { depths with brace := depths.brace + 1 }
  | '}' => { depths with brace := depths.brace - 1 }
  | _ => depths

/-- The texts between the commas outside all brackets. -/
def segments (depths : Depths) : TypeText → List TypeText
  | [] => [[]]
  | c :: text =>
    if c = ',' ∧ depths = {} then [] :: segments depths text
    else (segments (depths.after c) text).modifyHead (c :: ·)

def splitTopLevelConstArgs (text : TypeText) : List TypeText :=
  let parts := segments {} text
  let last := parts.getLastD []
  (parts.dropLast ++ if last ≠ [] ∨ trimText text ≠ [] then [last] else []).map trimText

def isOwnerChar (c : Char) : Bool := c.isAlphanum || c == '_' || c == '.'

/-- The name before a bracket. -/
def ownerName (before : TypeText) : String := String.ofList (before.rtakeWhile isOwnerChar)

/-- The cut of the name, one byte after the last character that is not part of it. -/
def ownerOf (before : TypeText) : Option String :=
  match (before.rdropWhile isOwnerChar).getLast? with
  | none => some (ownerName before)
  | some c => if c.utf8Size = 1 then some (ownerName before) else none

/-- `args.join(", ")`. -/
def joinArgs (args : List TypeText) : TypeText := [',', ' '].intercalate args

def group (before inner after : TypeText) : TypeText := before ++ '[' :: (inner ++ ']' :: after)

/-! ## Arguments -/

structure ConstGenericParam where
  name : String
  kind : String

/-- What the parser and the standard library make of texts: `parse` reads a module and gives the
value of its first constant, `debug` is the debug form of a string. -/
structure ArgumentText where
  parse : String → Option (Option SyntaxExprOutput)
  debug : String → String

def namesConstant (constants : Constants) (evaluator : Evaluator) (expr : SyntaxExprOutput) :
    Bool :=
  match qualifiedExprName expr with
  | some name => (evaluator.values name).isSome || (constants.definitions name).isSome
  | none => false

mutual

def constGenericArgumentShapeIsAllowed (constants : Constants) (evaluator : Evaluator) :
    SyntaxExprOutput → Bool
  | .node head children letGuards fields clauses catchClauses tryAfter htmlExprs =>
    let expr := .node head children letGuards fields clauses catchClauses tryAfter htmlExprs
    match head.kind with
    | .int | .float | .atom | .binary => true
    | .var =>
      head.text = some "true" || head.text = some "false" ||
        namesConstant constants evaluator expr
    | .fieldAccess => namesConstant constants evaluator expr
    | .call | .functionCall =>
      match children.head?.bind qualifiedExprName with
      | none => false
      | some name =>
        (constants.functions (name, children.length - 1)).isSome &&
          argumentShapesAreAllowed constants evaluator children true
    | _ => false

/-- The shapes of the subexpressions of a call, its callee aside. -/
def argumentShapesAreAllowed (constants : Constants) (evaluator : Evaluator) :
    List SyntaxExprOutput → (isCallee : Bool) → Bool
  | [], _ => true
  | expr :: exprs, isCallee =>
    (isCallee || constGenericArgumentShapeIsAllowed constants evaluator expr) &&
      argumentShapesAreAllowed constants evaluator exprs false

end

def constGenericKindError (parameter : ConstGenericParam) (actual : String) :
    ValueLifecycleDiagnostic :=
  diagnostic "CONST_GENERIC_KIND_MISMATCH" ("const parameter `" ++ parameter.name ++
    "` requires `" ++ parameter.kind ++ "`, found `" ++ actual ++ "`")

/-- The module that an argument is parsed in. -/
def argumentSource (kind text : String) : String :=
  "module lifecycle.const_argument.\nconst ARG: " ++ kind ++ " = " ++ text ++ ".\n"

def argumentText (texts : ArgumentText) (parameter : ConstGenericParam) (value : ConstValue) :
    Except ValueLifecycleDiagnostic String :=
  match parameter.kind, value with
  | "Int", .int value => .ok (toString value)
  | "Bool", .bool value => .ok (if value then "true" else "false")
  | "Atom", .atom value => .ok ("Atom[" ++ texts.debug value ++ "]")
  | _, value => .error (constGenericKindError parameter value.typeName)

/-- What rewriting is given beside the text: the parameters of the types, the constant
parameters in scope, and what the evaluator is given. -/
structure ConstGenerics where
  specs : String → Option (List (Option ConstGenericParam))
  inScope : String → Option String
  texts : ArgumentText
  floats : FloatText
  constants : Constants

def parseConstGenericArgument (generics : ConstGenerics) (parameter : ConstGenericParam)
    (text : String) : Except ValueLifecycleDiagnostic SyntaxExprOutput :=
  match generics.texts.parse (argumentSource parameter.kind text) with
  | none => .error (diagnostic "INVALID_CONST_GENERIC_ARGUMENT"
      "const generic arguments accept literals, constants, const parameters, or const-function calls")
  | some none => .error (diagnostic "INVALID_CONST_GENERIC_ARGUMENT"
      "missing const generic argument")
  | some (some expression) => .ok expression

def resolveConstGenericArgument (generics : ConstGenerics) (parameter : ConstGenericParam)
    (text : TypeText) : Evaluation TypeText := do
  let text := String.ofList (trimText text)
  match generics.inScope text with
  | some kind =>
    if kind = parameter.kind then pure text.toList
    else throw (constGenericKindError parameter kind)
  | none => do
    let expression ← liftM (parseConstGenericArgument generics parameter text)
    let evaluator ← get
    if constGenericArgumentShapeIsAllowed generics.constants evaluator expression then do
      let value ← evaluateExpr generics.floats generics.constants (stepLimit + 1) expression
        fun _ => none
      let text ← liftM (argumentText generics.texts parameter value)
      pure text.toList
    else
      throw (diagnostic "INVALID_CONST_GENERIC_ARGUMENT"
        "const generic arguments accept literals, constants, const parameters, or const-function calls; inline arithmetic and runtime expressions are not supported")

/-! ## Rewriting -/

/-- How rewriting ends without a text. -/
inductive Stop where
  | outOfFuel
  | panicked
  | diagnosed (diagnostic : ValueLifecycleDiagnostic)

abbrev Rewriting := Method Stop Evaluator

def orPanic {α : Type} : Option α → Except Stop α
  | some a => .ok a
  | none => .error .panicked

/-- The parameters that the arguments of an application are for; of other types, none. -/
def parametersOf (specs : String → Option (List (Option ConstGenericParam))) (owner : String)
    (args : List TypeText) : Except Stop (List (Option ConstGenericParam)) :=
  match specs owner with
  | some spec =>
    if spec.length ≠ args.length then
      .error (.diagnosed (diagnostic "CONST_GENERIC_ARITY"
        ("const-generic type `" ++ owner ++ "` expects " ++ toString spec.length ++
          " arguments, found " ++ toString args.length)))
    else .ok spec
  | none => .ok (args.map fun _ => none)

section form

variable (generics : ConstGenerics)

/- Rewriting with less fuel. -/
variable (rewrite : TypeText → Rewriting TypeText)

def rewriteArgs : List (Option ConstGenericParam) → List TypeText → Rewriting (List TypeText)
  | some parameter :: parameters, arg :: args => do
    let arg ← (resolveConstGenericArgument generics parameter arg).mapError .diagnosed
    return arg :: (← rewriteArgs parameters args)
  | none :: parameters, arg :: args => do
    let arg ← rewrite arg
    return arg :: (← rewriteArgs parameters args)
  | _, _ => pure []

/-- One pass over the first bracket of a text, which starts over when a bracket stands in the
rebuilt text behind the old place of the closing one. -/
def rewriteGroup (before inner after : TypeText) : Rewriting TypeText := do
  let owner ← liftM (orPanic (ownerOf before))
  let args := splitTopLevelConstArgs inner
  let parameters ← liftM (parametersOf generics.specs owner args)
  let args ← rewriteArgs generics rewrite parameters args
  let rebuilt := group before (joinArgs args) after
  let close := byteLength before + 1 + byteLength inner
  let rest ← liftM (orPanic (sliceFrom (min close (byteLength rebuilt)) rebuilt))
  if '[' ∈ rest then rewrite rebuilt else pure rebuilt

end form

/-- Rewrites the constant arguments in a type text. The fuel bounds the nesting of calls. -/
def rewriteConstGenericTypeText (generics : ConstGenerics) : Nat → TypeText → Rewriting TypeText
  | 0, _ => throw .outOfFuel
  | fuel + 1, text =>
    match firstGroup text with
    | none => pure text
    | some (before, inner, after) =>
      rewriteGroup generics (rewriteConstGenericTypeText generics fuel) before inner after

end Terlan.ValueLifecycle
