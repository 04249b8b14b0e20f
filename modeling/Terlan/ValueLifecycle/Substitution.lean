/-
  Substitution of evaluated constants into the expressions that run: values of constants,
  how a value is written as an expression and as a pattern, the names that stand for
  constants, and the traversal that replaces them.

  The traversal takes no account of the names that are bound where it stands.
-/
import Terlan.Syntax.Parts

namespace Terlan.ValueLifecycle

open Terlan.Syntax

/-! ## Values -/

structure ConstEntry (ν : Type) where
  key : String
  value : ν

/-- Values of constants. Floats are kept as bits; the entries of maps and the fields of
records are in the order of their keys. -/
inductive ConstValue where
  | int (value : Int)
  | float (bits : UInt64)
  | bool (value : Bool)
  | atom (value : String)
  | binary (value : String)
  | tuple (values : List ConstValue)
  | list (values : List ConstValue)
  | array (values : List ConstValue)
  | map (values : List (ConstEntry ConstValue))
  | record (name : String) (fields : List (ConstEntry ConstValue))
  | union (name arm : String) (representation : ConstValue)

/-- Values of the constants, by every name they are known under. -/
abbrev ConstValues := String → Option ConstValue

section rendering

variable (formatFloat : UInt64 → String)

def literalHead (kind : SyntaxExprKind) (arity : Nat) (text : Option String) : SyntaxExprHead :=
  ⟨kind, arity, text, none, none, none, [], [], []⟩

def literalExpr (kind : SyntaxExprKind) (text : Option String) (children : List SyntaxExprOutput)
    (fields : List (SyntaxExprFieldOutput SyntaxExprOutput)) : SyntaxExprOutput :=
  .node (literalHead kind children.length text) children [] fields [] [] none []

def withRaw (raw : String) : SyntaxExprOutput → SyntaxExprOutput
  | .node head children letGuards fields clauses catchClauses tryAfter htmlExprs =>
    .node { head with raw := some raw } children letGuards fields clauses catchClauses tryAfter
      htmlExprs

mutual

def valueToExpr : ConstValue → SyntaxExprOutput
  | .int value => literalExpr .int (some (toString value)) [] []
  | .float bits => literalExpr .float (some (formatFloat bits)) [] []
  | .bool value => literalExpr .atom (some (toString value)) [] []
  | .atom value => literalExpr .atom (some value) [] []
  | .binary value => literalExpr .binary (some value) [] []
  | .tuple values => literalExpr .tuple none (valuesToExprs values) []
  | .list values => literalExpr .list none (valuesToExprs values) []
  | .array values => literalExpr .array none (valuesToExprs values) []
  | .map values => literalExpr .map none [] (entriesToFields values)
  | .record name fields => literalExpr .recordConstruct (some name) [] (entriesToFields fields)
  | .union name arm representation =>
    withRaw s!"const_union:{name}.{arm}" (valueToExpr representation)

def valuesToExprs : List ConstValue → List SyntaxExprOutput
  | [] => []
  | value :: values => valueToExpr value :: valuesToExprs values

def entriesToFields :
    List (ConstEntry ConstValue) → List (SyntaxExprFieldOutput SyntaxExprOutput)
  | [] => []
  | ⟨key, value⟩ :: entries => ⟨key, true, valueToExpr value⟩ :: entriesToFields entries

end

def literalPattern (kind : SyntaxPatternKind) (text : Option String)
    (children : List SyntaxPatternOutput)
    (fields : List (SyntaxPatternFieldOutput SyntaxPatternOutput)) : SyntaxPatternOutput :=
  .node kind children.length text children fields

mutual

/-- A value as a pattern; arrays have none. -/
def valueToPattern : ConstValue → Option SyntaxPatternOutput
  | .int value => some (literalPattern .int (some (toString value)) [] [])
  | .float bits => some (literalPattern .float (some (formatFloat bits)) [] [])
  | .bool value => some (literalPattern .atom (some (toString value)) [] [])
  | .atom value => some (literalPattern .atom (some value) [] [])
  | .binary value => some (literalPattern .string (some value) [] [])
  | .tuple values => (valuesToPatterns values).map fun children => literalPattern .tuple none children []
  | .list values => (valuesToPatterns values).map fun children => literalPattern .list none children []
  | .map values => (entriesToPatternFields values).map fun fields => literalPattern .map none [] fields
  | .record name fields =>
    (entriesToPatternFields fields).map fun fields => literalPattern .record (some name) [] fields
  | .union name arm representation =>
    (valueToPattern representation).map fun child =>
      .node .constructor 1 (some ("$const:" ++ name ++ "." ++ arm)) [child] []
  | .array _ => none

def valuesToPatterns : List ConstValue → Option (List SyntaxPatternOutput)
  | [] => some []
  | value :: values => do return (← valueToPattern value) :: (← valuesToPatterns values)

def entriesToPatternFields :
    List (ConstEntry ConstValue) → Option (List (SyntaxPatternFieldOutput SyntaxPatternOutput))
  | [] => some []
  | ⟨key, value⟩ :: entries => do
    return ⟨key, true, ← valueToPattern value⟩ :: (← entriesToPatternFields entries)

end

/-! ## Names -/

/-- The dotted and indexed name an expression spells. -/
def qualifiedExprName : SyntaxExprOutput → Option String :=
  SyntaxExprOutput.fold fun expr names =>
    match expr.kind with
    | .var | .atom => expr.text
    | .fieldAccess =>
      match names.children, expr.text with
      | some owner :: _, some field => some (owner ++ "." ++ field)
      | _, _ => none
    | .index =>
      match names.children with
      | [some value, some index] => some (value ++ "[" ++ index ++ "]")
      | _ => none
    | _ => none

variable (values : ConstValues)

/-- The constant that an expression is replaced by. -/
def constantAt (expr : SyntaxExprOutput) : Option ConstValue :=
  match expr.kind with
  | .var => expr.text.bind values
  | .fieldAccess => (qualifiedExprName expr).bind values
  | _ => none

/-- The union constant whose method a call names with dotted syntax. -/
def unionReceiver (expr : SyntaxExprOutput) : Option ConstValue :=
  if expr.kind ≠ .call then none
  else
    match expr.remote.bind values with
    | some (.union name arm representation) =>
      match expr.children with
      | [] => none
      | callee :: _ =>
        if callee.kind = .var ∨ callee.kind = .atom then some (.union name arm representation)
        else none
    | _ => none

/-- The callee of a call whose receiver is a constant: the method of that value. -/
def asMethodOf : Option ConstValue → SyntaxExprOutput → SyntaxExprOutput
  | none, callee => callee
  | some value, .node head _ letGuards fields clauses catchClauses tryAfter htmlExprs =>
    .node { head with kind := .fieldAccess, arity := 1 } [valueToExpr formatFloat value] letGuards
      fields clauses catchClauses tryAfter htmlExprs

/-! ## The traversal -/

mutual

def substitutePattern : SyntaxPatternOutput → SyntaxPatternOutput
  | .node kind arity text children fields =>
    match if kind = .constructor ∧ children.isEmpty then
        (text.bind values).bind (valueToPattern formatFloat) else none with
    | some replacement => replacement
    | none => .node kind arity text (substitutePatterns children) (substitutePatternFields fields)

def substitutePatterns : List SyntaxPatternOutput → List SyntaxPatternOutput
  | [] => []
  | pattern :: patterns => substitutePattern pattern :: substitutePatterns patterns

def substitutePatternFields :
    List (SyntaxPatternFieldOutput SyntaxPatternOutput) →
      List (SyntaxPatternFieldOutput SyntaxPatternOutput)
  | [] => []
  | ⟨key, required, value⟩ :: fields =>
    ⟨key, required, substitutePattern value⟩ :: substitutePatternFields fields

end

/-- Head of an expression after the traversal: its patterns are substituted, and a call whose
receiver is a constant no longer names a module. -/
def substituteHead (receiver : Option ConstValue) (head : SyntaxExprHead) : SyntaxExprHead :=
  { head with
    remote := if receiver.isSome then none else head.remote
    patterns := head.patterns.map (substitutePattern formatFloat values) }

/-- The receiver of a call belongs to its callee, the first child. -/
def siteReceiver (receiver : Option ConstValue) : Site → Option ConstValue
  | .child 0 => receiver
  | _ => none

/-- An expression with the constants it names replaced by their values. The receiver is that of
the call whose callee the expression is, when it is a constant: the callee becomes the method
of the value, which is written in as it is. The expressions in HTML nodes are not visited. -/
def substituteExpr : SyntaxExprOutput → Option ConstValue → SyntaxExprOutput :=
  SyntaxExprOutput.fold fun original substituted receiver =>
    let expr := asMethodOf formatFloat receiver original
    match constantAt values expr with
    | some value => valueToExpr formatFloat value
    | none =>
      let calleeReceiver := unionReceiver values expr
      let parts := (substituted.mapPatterns (substitutePattern formatFloat values)).mapSites
        fun site substitute => substitute (siteReceiver calleeReceiver site)
      { parts.withChildren (receiver.map fun value => [valueToExpr formatFloat value]) with
        htmlExprs := expr.htmlExprs }.rebuild
          (substituteHead formatFloat values calleeReceiver expr.head)

end rendering

end Terlan.ValueLifecycle
