/-
  What a name refers to where it stands: the names bound by parameters and patterns, the
  substitution of constants that follows them, and the meaning of expressions over any
  runtime, with the names of constants and after they are replaced.
-/
import Terlan.ValueLifecycle.Substitution

namespace Terlan.ValueLifecycle

open Terlan.Syntax

/-! ## Bound names -/

/-- Names that are bound at a site of an expression: a binding of `let` and a generator of a
comprehension see the ones before them, the body and the yielded expression see all. -/
def siteNames (head : SyntaxExprHead) : Site → List String
  | .child index =>
    match head.kind, index with
    | .letIn, index => (head.patterns.take index).flatMap SyntaxPatternOutput.names
    | .listComprehension, 0 => head.patterns.flatMap SyntaxPatternOutput.names
    | .listComprehension, index + 1 => (head.patterns.take index).flatMap SyntaxPatternOutput.names
    | _, _ => []
  | .letGuard index =>
    match head.kind with
    | .letIn => (head.patterns.take (index + 1)).flatMap SyntaxPatternOutput.names
    | _ => []
  | .clause patterns => patterns.flatMap SyntaxPatternOutput.names
  | .field | .after | .html => []

/-- The names bound inside, where more names are bound. -/
def extend (names : List String) (bound : String → Bool) : String → Bool :=
  fun name => names.contains name || bound name

/-- What an expression is used for. A name that is called is looked up among functions, not
among constants, and so is the method of a receiver. -/
inductive Place where
  | value
  | callee
  | method (receiver : ConstValue)

def Place.receiver : Place → Option ConstValue
  | .value | .callee => none
  | .method receiver => some receiver

def sitePlace (head : SyntaxExprHead) (receiver : Option ConstValue) : Site → Place
  | .child 0 =>
    match head.kind, receiver with
    | .call, none => .callee
    | .call, some receiver => .method receiver
    | _, _ => .value
  | _ => .value

/-- Names of values that a dotted and indexed name is read through. -/
def referencedNames : SyntaxExprOutput → List String :=
  SyntaxExprOutput.fold fun expr names =>
    match expr.kind with
    | .var => expr.text.toList
    | .fieldAccess => names.children.headD []
    | .index => names.children.flatten
    | _ => []

/-- The same for a name given as text: the first segment, and that of every index. -/
def pathRoots (path : String) : List String :=
  (path.splitOn "[").map fun segment =>
    String.ofList (segment.toList.takeWhile fun character => character ≠ '.' ∧ character ≠ ']')

section substitution

variable (formatFloat : UInt64 → String) (values : ConstValues)

/-- The constant that an expression refers to, when none of its names is bound. -/
def freeConstantAt (bound : String → Bool) (place : Place) (expr : SyntaxExprOutput) :
    Option ConstValue :=
  match place with
  | .value => if (referencedNames expr).any bound then none else constantAt values expr
  | .callee | .method _ => none

def freeReceiver (bound : String → Bool) (expr : SyntaxExprOutput) : Option ConstValue :=
  if (expr.remote.toList.flatMap pathRoots).any bound then none else unionReceiver values expr

/-- Substitution that replaces the free occurrences of constants and no others. -/
def captureFree : SyntaxExprOutput → (String → Bool) → Place → SyntaxExprOutput :=
  SyntaxExprOutput.fold fun original substituted bound place =>
    match freeConstantAt values bound place original with
    | some value => valueToExpr formatFloat value
    | none =>
      let expr := asMethodOf formatFloat place.receiver original
      let receiver := freeReceiver values bound expr
      let head := substituteHead formatFloat values receiver expr.head
      let parts := (substituted.mapPatterns (substitutePattern formatFloat values)).mapSites
        fun site substitute => substitute (extend (siteNames head site) bound) (sitePlace head receiver site)
      (parts.withChildren (place.receiver.map fun value => [valueToExpr formatFloat value])).rebuild
        head

/-! ## Occurrences -/

/-- A constant occurs free in an expression, as a value, a receiver or a pattern. -/
inductive Mentions : (String → Bool) → Place → SyntaxExprOutput → Prop
  | constant {bound : String → Bool} {place : Place} {e : SyntaxExprOutput} {value : ConstValue} :
      freeConstantAt values bound place e = some value → Mentions bound place e
  | receiver {bound : String → Bool} {place : Place} {e : SyntaxExprOutput} {value : ConstValue} :
      freeReceiver values bound e = some value → Mentions bound place e
  | pattern {bound : String → Bool} {place : Place} {e : SyntaxExprOutput}
      {pattern : SyntaxPatternOutput} : pattern ∈ e.patterns →
      substitutePattern formatFloat values pattern ≠ pattern → Mentions bound place e
  | clausePattern {bound : String → Bool} {place : Place} {e : SyntaxExprOutput}
      {clause : SyntaxClauseOutput SyntaxExprOutput} {pattern : SyntaxPatternOutput} :
      clause ∈ e.clauses ∨ clause ∈ e.catchClauses → pattern ∈ clause.patterns →
      substitutePattern formatFloat values pattern ≠ pattern → Mentions bound place e
  | inside {bound : String → Bool} {place : Place} {e c : SyntaxExprOutput} {site : Site} :
      e.subexprs.At site c →
      Mentions (extend (siteNames e.head site) bound) (sitePlace e.head none site) c →
      Mentions bound place e

/-- At an expression itself no name is captured: a constant that is looked up there is used as
a value and none of its names is bound, none of the names of a receiver is bound, and the
HTML inside mentions no constant. -/
structure Clear (bound : String → Bool) (place : Place) (e : SyntaxExprOutput) : Prop where
  constant : ∀ value, constantAt values (asMethodOf formatFloat place.receiver e) = some value →
    place = .value ∧ ∀ name ∈ referencedNames e, bound name = false
  receiver : ∀ value, unionReceiver values (asMethodOf formatFloat place.receiver e) = some value →
    ∀ name ∈ e.remote.toList.flatMap pathRoots, bound name = false
  html : constantAt values (asMethodOf formatFloat place.receiver e) = none →
    ∀ c ∈ e.htmlExprs, ¬ Mentions formatFloat values bound .value c

/-- The traversal comes from an expression to a subexpression, with the names bound there. -/
inductive Reaches :
    (String → Bool) → Place → SyntaxExprOutput → (String → Bool) → Place → SyntaxExprOutput → Prop
  | here {bound : String → Bool} {place : Place} {e : SyntaxExprOutput} :
      Reaches bound place e bound place e
  | inside {bound after : String → Bool} {place target : Place} {e c d : SyntaxExprOutput} {site : Site} :
      constantAt values (asMethodOf formatFloat place.receiver e) = none →
      ((e.subexprs.mapPatterns (substitutePattern formatFloat values)).dropChildren
        place.receiver.isSome).At site c →
      site ≠ .html →
      Reaches
        (extend (siteNames (substituteHead formatFloat values none
          (asMethodOf formatFloat place.receiver e).head) site) bound)
        (sitePlace (asMethodOf formatFloat place.receiver e).head
          (unionReceiver values (asMethodOf formatFloat place.receiver e)) site)
        c after target d →
      Reaches bound place e after target d

/-- No name of a constant is captured in an expression with bound names. -/
def NoCapture (bound : String → Bool) (place : Place) (e : SyntaxExprOutput) : Prop :=
  ∀ after target c, Reaches formatFloat values bound place e after target c →
    Clear formatFloat values after target c

end substitution

/-! ## Meaning -/

/-- What a runtime does at each form of expression: what a local that holds a value means, what
a name means that is neither local nor a constant, and what an expression means from the
meanings of its parts, each of which depends on the values that its patterns bind. -/
structure Runtime (ν δ : Type) where
  held : ν → δ
  global : String → δ
  node : SyntaxExprHead → SyntaxExprParts ((String → ν) → δ) → δ

def bindNames {ν : Type} (names : List String) (bindings : String → ν) (env : String → Option ν) :
    String → Option ν :=
  fun name => if names.contains name then some (bindings name) else env name

section meaning

variable {ν δ : Type} (runtime : Runtime ν δ)

def Runtime.nameMeaning (env : String → Option ν) (name : String) : δ :=
  match env name with
  | some value => runtime.held value
  | none => runtime.global name

/-- Meaning of an expression in which no constant is left. -/
def evaluate : SyntaxExprOutput → (String → Option ν) → δ :=
  SyntaxExprOutput.fold fun expr meanings env =>
    match expr.kind, expr.text with
    | .var, some name => runtime.nameMeaning env name
    | _, _ =>
      runtime.node expr.head (meanings.mapSites fun site meaning bindings =>
        meaning (bindNames (siteNames expr.head site) bindings env))

variable (formatFloat : UInt64 → String) (values : ConstValues)

/-- Meaning of a constant: that of its value where nothing is bound. -/
def constMeaning (value : ConstValue) : δ :=
  evaluate runtime (valueToExpr formatFloat value) fun _ => none

/-- Meaning of an expression in which names that are not bound may refer to constants. -/
def evaluateWith : SyntaxExprOutput → (String → Option ν) → Place → δ :=
  SyntaxExprOutput.fold fun original meanings env place =>
    let bound := fun name => (env name).isSome
    match freeConstantAt values bound place original with
    | some value => constMeaning runtime formatFloat value
    | none =>
      let expr := asMethodOf formatFloat place.receiver original
      match expr.kind, expr.text with
      | .var, some name => runtime.nameMeaning env name
      | _, _ =>
        let receiver := freeReceiver values bound expr
        let head := substituteHead formatFloat values receiver expr.head
        let parts := (meanings.mapPatterns (substitutePattern formatFloat values)).mapSites
          fun site meaning bindings =>
            meaning (bindNames (siteNames head site) bindings env) (sitePlace head receiver site)
        runtime.node head (parts.withChildren
          (place.receiver.map fun value => [fun _ => constMeaning runtime formatFloat value]))

end meaning

end Terlan.ValueLifecycle
