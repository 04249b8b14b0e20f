/-
  Checked expressions of the compiler, with the immediate subexpressions of each as a list,
  a rewriting of them in place, and the induction over subexpressions that both give.

  A let binding and a comprehension generator have the same two fields and are one type here,
  and so have the fields of maps and of records. Source spans are left out.
-/
import Mathlib.Data.List.Basic

namespace Terlan.CoreIr

open List

/-! ## Types and patterns -/

structure CoreStructTypeField (τ : Type) where
  name : String
  ty : τ
  isPrivate : Bool

structure CoreMapTypeField (τ : Type) where
  key : String
  operator : String
  value : τ

inductive CoreTupleTypeElem (τ : Type) where
  | type (ty : τ)
  | field (name : String) (ty : τ)

inductive CoreType where
  | int
  | float
  | number
  | string
  | binary
  | atom
  | bool
  | term
  | dynamic
  | never
  | atomLiteral (name : String)
  | named (name : String)
  | apply (constructor : String) (args : List CoreType)
  | list (element : CoreType)
  | tuple (elements : List (CoreTupleTypeElem CoreType))
  | struct (name : String) (fields : List (CoreStructTypeField CoreType))
  | map (fields : List (CoreMapTypeField CoreType))
  | arrow (params : List CoreType) (returnType : CoreType)
  | union (members : List CoreType)

structure CorePatternField (π : Type) where
  key : String
  required : Bool
  value : π

inductive CoreStringPatternSegment where
  | literal (text : String)
  | capture (name : String) ( typeAnnotation : Option String)

inductive CoreBinaryPatternDescriptor where
  | uInt (bits : UInt64)
  | intBits (bits : UInt64)
  | bytes (count : UInt64)
  | bits (count : UInt64)
  | utf8
  | utf16
  | utf32
  | rest

structure CoreBinaryPatternField where
  name : String
  descriptor : CoreBinaryPatternDescriptor

inductive CorePattern where
  | wildcard
  | var (name : String)
  | int (value : Int64)
  | float (text : String)
  | string (text : String)
  | stringPattern (segments : List CoreStringPatternSegment)
  | atom (name : String)
  | tuple (items : List CorePattern)
  | aliasOf (name : String) (pattern : CorePattern)
  | list (items : List CorePattern)
  | listCons (head tail : CorePattern)
  | map (fields : List (CorePatternField CorePattern))
  | record (name : String) (fields : List (CorePatternField CorePattern))
  | binaryLayout (littleEndian : Bool) (fields : List CoreBinaryPatternField)
  | constructor (name : String) (identity : Option String) (args : List CorePattern)

/-! ## Expressions -/

/-- A pattern with the expression that it takes apart. -/
structure CoreLetBinding (ε : Type) where
  pattern : CorePattern
  value : ε

/-- Field of a map or of a record. -/
structure CoreExprField (ε : Type) where
  key : String
  required : Bool
  value : ε

structure CoreCaseClause (ε : Type) where
  pattern : CorePattern
  guard : Option ε
  body : ε

structure CoreIfClause (ε : Type) where
  condition : ε
  body : ε

structure CoreTryAfter (ε : Type) where
  trigger : ε
  body : ε

/-- The data of a query beside its parameters. -/
structure CoreSqlQuery where
  rowType : String
  boundSql : String
  queryKind : String
  transactionRequirement : String
  cardinality : String
  resultType : String
  resultCoreType : CoreType
  projectionFields : List String

/-- An intrinsic operation, by its contract text, with its checked type and effects. -/
structure CoreIntrinsic where
  id : String
  returnType : CoreType
  effects : List String

inductive CoreExpr where
  | int (value : Int64)
  | float (text : String)
  | binary (text : String)
  | atom (name : String)
  | var (name : String)
  | tuple (items : List CoreExpr)
  | list (items : List CoreExpr)
  | listCons (head tail : CoreExpr)
  | array (items : List CoreExpr)
  | index (base index : CoreExpr)
  | listComprehension (expr : CoreExpr) (generators : List (CoreLetBinding CoreExpr))
      (guards : List CoreExpr) (lift : Option String)
  | letIn (bindings : List (CoreLetBinding CoreExpr)) (body : CoreExpr)
  | map (fields : List (CoreExprField CoreExpr))
  | recordConstruct (name : String) (fields : List (CoreExprField CoreExpr))
  | fieldAccess (base : CoreExpr) (field : String)
  | recordAccess (base : CoreExpr) (name field : String)
  | recordUpdate (base : CoreExpr) (name : String) (fields : List (CoreExprField CoreExpr))
  | templateInstantiate (name : String) (fields : List (CoreExprField CoreExpr))
  | constructorChain (base : String) (identity : Option String) (typeArgs : List CoreType)
      (args : List CoreExpr) (record : CoreExpr)
  | remoteFunRef (module function : String) (arity : Nat)
  | remoteCall (module function : String) (typeArgs : List CoreType) (args : List CoreExpr)
  | constructorCall (constructor : String) (identity : Option String) (typeArgs : List CoreType)
      (args : List CoreExpr)
  | call (function : String) (typeArgs : List CoreType) (args : List CoreExpr)
  | mutableReceiverCall (receiver : CoreExpr) (method : String) (args : List CoreExpr)
      (effects : List String)
  | functionCall (callee : CoreExpr) (args : List CoreExpr)
  | cast (expr : CoreExpr) (targetType : CoreType)
  | intrinsic (operation : CoreIntrinsic) (args : List CoreExpr)
  | sqlQuery (query : CoreSqlQuery) (parameters : List CoreExpr)
  | caseOf (scrutinee : CoreExpr) (clauses : List (CoreCaseClause CoreExpr))
  | tryOf (body : CoreExpr) (ofClauses catchClauses : List (CoreCaseClause CoreExpr))
      (afterClause : Option (CoreTryAfter CoreExpr))
  | ifOf (clauses : List (CoreIfClause CoreExpr))
  | lam (params : List CorePattern) (parameterTypes : List (Option CoreType)) (body : CoreExpr)
  | unaryOp (operator : String) (operand : CoreExpr)
  | binaryOp (operator : String) (left right : CoreExpr)

/-! ## Immediate subexpressions -/

def CoreCaseClause.children {ε : Type} (clause : CoreCaseClause ε) : List ε :=
  clause.guard.toList ++ [clause.body]

def CoreIfClause.children {ε : Type} (clause : CoreIfClause ε) : List ε :=
  [clause.condition, clause.body]

def CoreTryAfter.children {ε : Type} (after : CoreTryAfter ε) : List ε :=
  [after.trigger, after.body]

def CoreExpr.children : CoreExpr → List CoreExpr
  | .int _ | .float _ | .binary _ | .atom _ | .var _ | .remoteFunRef _ _ _ => []
  | .tuple items | .list items | .array items => items
  | .listCons head tail => [head, tail]
  | .index base position => [base, position]
  | .listComprehension expr generators guards _ => expr :: generators.map (·.value) ++ guards
  | .letIn bindings body => bindings.map (·.value) ++ [body]
  | .map fields | .recordConstruct _ fields | .templateInstantiate _ fields => fields.map (·.value)
  | .fieldAccess base _ | .recordAccess base _ _ => [base]
  | .recordUpdate base _ fields => base :: fields.map (·.value)
  | .constructorChain _ _ _ args record => args ++ [record]
  | .remoteCall _ _ _ args | .constructorCall _ _ _ args | .call _ _ args => args
  | .mutableReceiverCall receiver _ args _ => receiver :: args
  | .functionCall callee args => callee :: args
  | .cast expr _ => [expr]
  | .intrinsic _ args => args
  | .sqlQuery _ parameters => parameters
  | .caseOf scrutinee clauses => scrutinee :: clauses.flatMap (·.children)
  | .tryOf body ofClauses catchClauses afterClause =>
    body :: ofClauses.flatMap (·.children) ++ catchClauses.flatMap (·.children) ++
      afterClause.toList.flatMap (·.children)
  | .ifOf clauses => clauses.flatMap (·.children)
  | .lam _ _ body => [body]
  | .unaryOp _ operand => [operand]
  | .binaryOp _ left right => [left, right]

section mapChildren

variable (f : CoreExpr → CoreExpr)

def CoreLetBinding.mapValue (binding : CoreLetBinding CoreExpr) : CoreLetBinding CoreExpr :=
  { binding with value := f binding.value }

def CoreExprField.mapValue (field : CoreExprField CoreExpr) : CoreExprField CoreExpr :=
  { field with value := f field.value }

def CoreCaseClause.mapExprs (clause : CoreCaseClause CoreExpr) : CoreCaseClause CoreExpr :=
  { clause with guard := clause.guard.map f, body := f clause.body }

def CoreIfClause.mapExprs (clause : CoreIfClause CoreExpr) : CoreIfClause CoreExpr :=
  { condition := f clause.condition, body := f clause.body }

def CoreTryAfter.mapExprs (after : CoreTryAfter CoreExpr) : CoreTryAfter CoreExpr :=
  { trigger := f after.trigger, body := f after.body }

@[simp] theorem CoreLetBinding.mapValue_pattern (binding : CoreLetBinding CoreExpr) :
    (binding.mapValue f).pattern = binding.pattern := rfl

@[simp] theorem CoreLetBinding.mapValue_value (binding : CoreLetBinding CoreExpr) :
    (binding.mapValue f).value = f binding.value := rfl

variable (field : CoreExprField CoreExpr)

@[simp] theorem CoreExprField.mapValue_key : (field.mapValue f).key = field.key := rfl

@[simp] theorem CoreExprField.mapValue_required :
    (field.mapValue f).required = field.required := rfl

@[simp] theorem CoreExprField.mapValue_value : (field.mapValue f).value = f field.value := rfl

@[simp] theorem CoreCaseClause.mapExprs_mk (pattern : CorePattern) (guard : Option CoreExpr)
    (body : CoreExpr) :
    CoreCaseClause.mapExprs f ⟨pattern, guard, body⟩ = ⟨pattern, guard.map f, f body⟩ := rfl

@[simp] theorem CoreIfClause.mapExprs_condition (clause : CoreIfClause CoreExpr) :
    (clause.mapExprs f).condition = f clause.condition := rfl

@[simp] theorem CoreIfClause.mapExprs_body (clause : CoreIfClause CoreExpr) :
    (clause.mapExprs f).body = f clause.body := rfl

/-- The same expression with each immediate subexpression rewritten. -/
def CoreExpr.mapChildren : CoreExpr → CoreExpr
  | .int value => .int value
  | .float text => .float text
  | .binary text => .binary text
  | .atom name => .atom name
  | .var name => .var name
  | .tuple items => .tuple (items.map f)
  | .list items => .list (items.map f)
  | .listCons head tail => .listCons (f head) (f tail)
  | .array items => .array (items.map f)
  | .index base position => .index (f base) (f position)
  | .listComprehension expr generators guards lift =>
    .listComprehension (f expr) (generators.map (·.mapValue f)) (guards.map f) lift
  | .letIn bindings body => .letIn (bindings.map (·.mapValue f)) (f body)
  | .map fields => .map (fields.map (·.mapValue f))
  | .recordConstruct name fields => .recordConstruct name (fields.map (·.mapValue f))
  | .fieldAccess base field => .fieldAccess (f base) field
  | .recordAccess base name field => .recordAccess (f base) name field
  | .recordUpdate base name fields => .recordUpdate (f base) name (fields.map (·.mapValue f))
  | .templateInstantiate name fields => .templateInstantiate name (fields.map (·.mapValue f))
  | .constructorChain base identity typeArgs args record =>
    .constructorChain base identity typeArgs (args.map f) (f record)
  | .remoteFunRef module function arity => .remoteFunRef module function arity
  | .remoteCall module function typeArgs args => .remoteCall module function typeArgs (args.map f)
  | .constructorCall constructor identity typeArgs args =>
    .constructorCall constructor identity typeArgs (args.map f)
  | .call function typeArgs args => .call function typeArgs (args.map f)
  | .mutableReceiverCall receiver method args effects =>
    .mutableReceiverCall (f receiver) method (args.map f) effects
  | .functionCall callee args => .functionCall (f callee) (args.map f)
  | .cast expr targetType => .cast (f expr) targetType
  | .intrinsic operation args => .intrinsic operation (args.map f)
  | .sqlQuery query parameters => .sqlQuery query (parameters.map f)
  | .caseOf scrutinee clauses => .caseOf (f scrutinee) (clauses.map (·.mapExprs f))
  | .tryOf body ofClauses catchClauses afterClause =>
    .tryOf (f body) (ofClauses.map (·.mapExprs f)) (catchClauses.map (·.mapExprs f))
      (afterClause.map (·.mapExprs f))
  | .ifOf clauses => .ifOf (clauses.map (·.mapExprs f))
  | .lam params parameterTypes body => .lam params parameterTypes (f body)
  | .unaryOp operator operand => .unaryOp operator (f operand)
  | .binaryOp operator left right => .binaryOp operator (f left) (f right)

end mapChildren

/-! ## Induction -/

section induct

variable {P : CoreExpr → Prop} {a b : CoreExpr} {as bs : List CoreExpr}

theorem forall_mem_two (ha : P a) (hb : P b) : ∀ c ∈ [a, b], P c :=
  forall_mem_cons.mpr ⟨ha, forall_mem_singleton.mpr hb⟩

theorem forall_mem_snoc (has : ∀ c ∈ as, P c) (hb : P b) : ∀ c ∈ as ++ [b], P c :=
  forall_mem_append.mpr ⟨has, forall_mem_singleton.mpr hb⟩

/-- Induction over expressions: what holds of an expression when it holds of its immediate
subexpressions holds of every expression. -/
theorem CoreExpr.induction (step : ∀ e : CoreExpr, (∀ c ∈ e.children, P c) → P e) (e : CoreExpr) :
    P e :=
  @CoreExpr.rec P (fun items => ∀ c ∈ items, P c) (fun bindings => ∀ c ∈ bindings.map CoreLetBinding.value, P c)
    (fun fields => ∀ c ∈ fields.map CoreExprField.value, P c)
    (fun clauses => ∀ c ∈ clauses.flatMap CoreCaseClause.children, P c)
    (fun after => ∀ c ∈ after.toList.flatMap CoreTryAfter.children, P c)
    (fun clauses => ∀ c ∈ clauses.flatMap CoreIfClause.children, P c) (fun binding => P binding.value)
    (fun field => P field.value) (fun clause => ∀ c ∈ clause.children, P c)
    (fun after => ∀ c ∈ after.children, P c) (fun clause => ∀ c ∈ clause.children, P c)
    (fun guard => ∀ c ∈ guard.toList, P c)
    (fun value => step (.int value) (forall_mem_nil P))
    (fun text => step (.float text) (forall_mem_nil P))
    (fun text => step (.binary text) (forall_mem_nil P))
    (fun name => step (.atom name) (forall_mem_nil P))
    (fun name => step (.var name) (forall_mem_nil P))
    (fun items h => step (.tuple items) h)
    (fun items h => step (.list items) h)
    (fun head tail h t => step (.listCons head tail) (forall_mem_two h t))
    (fun items h => step (.array items) h)
    (fun base index b i => step (.index base index) (forall_mem_two b i))
    (fun expr generators guards lift e s g =>
      step (.listComprehension expr generators guards lift)
        (forall_mem_append.mpr ⟨forall_mem_cons.mpr ⟨e, s⟩, g⟩))
    (fun bindings body v b => step (.letIn bindings body) (forall_mem_snoc v b))
    (fun fields h => step (.map fields) h)
    (fun name fields h => step (.recordConstruct name fields) h)
    (fun base field b => step (.fieldAccess base field) (forall_mem_singleton.mpr b))
    (fun base name field b => step (.recordAccess base name field) (forall_mem_singleton.mpr b))
    (fun base name fields b h => step (.recordUpdate base name fields) (forall_mem_cons.mpr ⟨b, h⟩))
    (fun name fields h => step (.templateInstantiate name fields) h)
    (fun base identity types args record h r =>
      step (.constructorChain base identity types args record) (forall_mem_snoc h r))
    (fun module function arity => step (.remoteFunRef module function arity) (forall_mem_nil P))
    (fun module function types args h => step (.remoteCall module function types args) h)
    (fun name identity types args h => step (.constructorCall name identity types args) h)
    (fun function types args h => step (.call function types args) h)
    (fun receiver method args effects r h =>
      step (.mutableReceiverCall receiver method args effects) (forall_mem_cons.mpr ⟨r, h⟩))
    (fun callee args c h => step (.functionCall callee args) (forall_mem_cons.mpr ⟨c, h⟩))
    (fun expr type e => step (.cast expr type) (forall_mem_singleton.mpr e))
    (fun operation args h => step (.intrinsic operation args) h)
    (fun query parameters h => step (.sqlQuery query parameters) h)
    (fun scrutinee clauses s c => step (.caseOf scrutinee clauses) (forall_mem_cons.mpr ⟨s, c⟩))
    (fun body ofs catches after b o c a =>
      step (.tryOf body ofs catches after)
        (forall_mem_append.mpr
          ⟨forall_mem_append.mpr ⟨forall_mem_cons.mpr ⟨b, o⟩, c⟩, a⟩))
    (fun clauses h => step (.ifOf clauses) h)
    (fun params types body b => step (.lam params types body) (forall_mem_singleton.mpr b))
    (fun operator operand o => step (.unaryOp operator operand) (forall_mem_singleton.mpr o))
    (fun operator left right l r => step (.binaryOp operator left right) (forall_mem_two l r))
    (forall_mem_nil P) (fun _ _ head tail => forall_mem_cons.mpr ⟨head, tail⟩)
    (forall_mem_nil P) (fun _ _ head tail => forall_mem_cons.mpr ⟨head, tail⟩)
    (forall_mem_nil P) (fun _ _ head tail => forall_mem_cons.mpr ⟨head, tail⟩)
    (forall_mem_nil P) (fun _ _ head tail => forall_mem_append.mpr ⟨head, tail⟩)
    (forall_mem_nil P) (fun _ h => forall_mem_append.mpr ⟨h, forall_mem_nil P⟩)
    (forall_mem_nil P) (fun _ _ head tail => forall_mem_append.mpr ⟨head, tail⟩)
    (fun _ _ v => v) (fun _ _ _ v => v) (fun _ _ _ g b => forall_mem_snoc g b)
    (fun _ _ t b => forall_mem_two t b) (fun _ _ c b => forall_mem_two c b)
    (forall_mem_nil P) (fun _ h => forall_mem_singleton.mpr h) e

end induct

/-! ## Subexpressions -/

/-- A property of an expression and of everything nested in it. -/
inductive CoreExpr.Everywhere (p : CoreExpr → Prop) : CoreExpr → Prop
  | mk {e : CoreExpr} : p e → (∀ c ∈ e.children, Everywhere p c) → Everywhere p e

theorem CoreExpr.Everywhere.here {p : CoreExpr → Prop} {e : CoreExpr} (h : e.Everywhere p) :
    p e := by
  cases h with
  | mk own _ => exact own

theorem CoreExpr.Everywhere.nested {p : CoreExpr → Prop} {e : CoreExpr} (h : e.Everywhere p) :
    ∀ c ∈ e.children, c.Everywhere p := by
  cases h with
  | mk _ rest => exact rest

section mapChildren

variable {f : CoreExpr → CoreExpr}

theorem children_mapExprs (clause : CoreCaseClause CoreExpr) :
    (clause.mapExprs f).children = clause.children.map f := by
  rcases clause with ⟨pattern, _ | guard, body⟩
  · rfl
  · rfl

theorem flatMap_children_clauses (clauses : List (CoreCaseClause CoreExpr)) :
    (clauses.map (·.mapExprs f)).flatMap CoreCaseClause.children =
      (clauses.flatMap CoreCaseClause.children).map f := by
  rw [flatMap_map, map_flatMap]
  exact flatMap_congr fun clause _ => children_mapExprs clause

theorem flatMap_children_ifs (clauses : List (CoreIfClause CoreExpr)) :
    (clauses.map (·.mapExprs f)).flatMap CoreIfClause.children =
      (clauses.flatMap CoreIfClause.children).map f := by
  rw [flatMap_map, map_flatMap]
  rfl

theorem map_value_bindings (bindings : List (CoreLetBinding CoreExpr)) :
    (bindings.map (·.mapValue f)).map CoreLetBinding.value =
      (bindings.map CoreLetBinding.value).map f := by
  rw [map_map, map_map]
  rfl

theorem map_value_fields (fields : List (CoreExprField CoreExpr)) :
    (fields.map (·.mapValue f)).map CoreExprField.value =
      (fields.map CoreExprField.value).map f := by
  rw [map_map, map_map]
  rfl

/-- The immediate subexpressions after rewriting them. -/
theorem children_mapChildren (e : CoreExpr) : (e.mapChildren f).children = e.children.map f := by
  cases e with
  | letIn bindings body =>
    change (bindings.map (·.mapValue f)).map CoreLetBinding.value ++ [f body] = _
    rw [map_value_bindings]
    simp [CoreExpr.children]
  | listComprehension expr generators guards lift =>
    change f expr :: (generators.map (·.mapValue f)).map CoreLetBinding.value ++ guards.map f = _
    rw [map_value_bindings, ← map_cons, ← map_append]
    rfl
  | map fields | recordConstruct _ fields | templateInstantiate _ fields => exact map_value_fields fields
  | recordUpdate base name fields => exact congrArg (f base :: ·) (map_value_fields fields)
  | constructorChain base identity types args record =>
    simp [CoreExpr.mapChildren, CoreExpr.children]
  | caseOf scrutinee clauses => exact congrArg (f scrutinee :: ·) (flatMap_children_clauses clauses)
  | tryOf body ofs catches after =>
    change f body :: (ofs.map (·.mapExprs f)).flatMap CoreCaseClause.children ++
      (catches.map (·.mapExprs f)).flatMap CoreCaseClause.children ++
      (after.map (·.mapExprs f)).toList.flatMap CoreTryAfter.children = _
    rw [flatMap_children_clauses, flatMap_children_clauses]
    cases after with
    | none => simp [CoreExpr.children]
    | some after => simp [CoreExpr.children, CoreTryAfter.children, CoreTryAfter.mapExprs]
  | ifOf clauses => exact flatMap_children_ifs clauses
  | _ => rfl

theorem map_eq_self {items : List CoreExpr} (h : ∀ c ∈ items, f c = c) : items.map f = items := by
  rw [map_congr_left h, map_id']

theorem map_mapValue_bindings {bindings : List (CoreLetBinding CoreExpr)}
    (h : ∀ c ∈ bindings.map CoreLetBinding.value, f c = c) :
    bindings.map (·.mapValue f) = bindings := by
  induction bindings with
  | nil => rfl
  | cons binding bindings ih =>
    obtain ⟨first, rest⟩ := forall_mem_cons.mp h
    rw [map_cons, ih rest, CoreLetBinding.mapValue, first]

theorem map_mapValue_fields {fields : List (CoreExprField CoreExpr)}
    (h : ∀ c ∈ fields.map CoreExprField.value, f c = c) : fields.map (·.mapValue f) = fields := by
  induction fields with
  | nil => rfl
  | cons field fields ih =>
    obtain ⟨first, rest⟩ := forall_mem_cons.mp h
    rw [map_cons, ih rest, CoreExprField.mapValue, first]

theorem map_mapExprs_clauses {clauses : List (CoreCaseClause CoreExpr)}
    (h : ∀ c ∈ clauses.flatMap CoreCaseClause.children, f c = c) :
    clauses.map (·.mapExprs f) = clauses := by
  induction clauses with
  | nil => rfl
  | cons clause clauses ih =>
    obtain ⟨own, rest⟩ := forall_mem_append.mp h
    obtain ⟨guards, bodies⟩ := forall_mem_append.mp own
    have body := forall_mem_singleton.mp bodies
    rcases clause with ⟨pattern, _ | guard, result⟩
    · rw [map_cons, ih rest, CoreCaseClause.mapExprs_mk, Option.map_none, body]
    · rw [map_cons, ih rest, CoreCaseClause.mapExprs_mk, Option.map_some, body,
        forall_mem_singleton.mp guards]

theorem map_mapExprs_ifs {clauses : List (CoreIfClause CoreExpr)}
    (h : ∀ c ∈ clauses.flatMap CoreIfClause.children, f c = c) :
    clauses.map (·.mapExprs f) = clauses := by
  induction clauses with
  | nil => rfl
  | cons clause clauses ih =>
    obtain ⟨own, rest⟩ := forall_mem_append.mp h
    obtain ⟨condition, bodies⟩ := forall_mem_cons.mp own
    rw [map_cons, ih rest, CoreIfClause.mapExprs, condition,
      forall_mem_singleton.mp bodies]

theorem map_mapExprs_after {after : Option (CoreTryAfter CoreExpr)}
    (h : ∀ c ∈ after.toList.flatMap CoreTryAfter.children, f c = c) :
    after.map (·.mapExprs f) = after := by
  cases after with
  | none => rfl
  | some after =>
    obtain ⟨trigger, bodies⟩ := forall_mem_cons.mp (forall_mem_append.mp h).1
    rw [Option.map_some, CoreTryAfter.mapExprs, trigger, forall_mem_singleton.mp bodies]

/-- Nothing changes when no subexpression does. -/
theorem mapChildren_eq_self {e : CoreExpr} (h : ∀ c ∈ e.children, f c = c) :
    e.mapChildren f = e := by
  cases e with
  | int _ | float _ | binary _ | atom _ | var _ | remoteFunRef _ _ _ => rfl
  | tuple items | list items | array items | remoteCall _ _ _ items | constructorCall _ _ _ items
  | call _ _ items | intrinsic _ items | sqlQuery _ items =>
    change ∀ c ∈ items, f c = c at h
    rw [CoreExpr.mapChildren, map_eq_self h]
  | map fields | recordConstruct _ fields | templateInstantiate _ fields =>
    change ∀ c ∈ fields.map CoreExprField.value, f c = c at h
    rw [CoreExpr.mapChildren, map_mapValue_fields h]
  | fieldAccess base _ | recordAccess base _ _ | cast base _ | unaryOp _ base | lam _ _ base =>
    rw [CoreExpr.mapChildren, forall_mem_singleton.mp h]
  | listCons a b | index a b | binaryOp _ a b =>
    obtain ⟨first, second⟩ := forall_mem_cons.mp h
    rw [CoreExpr.mapChildren, first, forall_mem_singleton.mp second]
  | letIn bindings body =>
    obtain ⟨values, bodies⟩ := forall_mem_append.mp h
    rw [CoreExpr.mapChildren, map_mapValue_bindings values, forall_mem_singleton.mp bodies]
  | constructorChain _ _ _ args record =>
    obtain ⟨arguments, records⟩ := forall_mem_append.mp h
    rw [CoreExpr.mapChildren, map_eq_self arguments, forall_mem_singleton.mp records]
  | recordUpdate base _ fields =>
    obtain ⟨first, rest⟩ := forall_mem_cons.mp h
    rw [CoreExpr.mapChildren, first, map_mapValue_fields rest]
  | mutableReceiverCall base _ args _ | functionCall base args =>
    obtain ⟨first, rest⟩ := forall_mem_cons.mp h
    rw [CoreExpr.mapChildren, first, map_eq_self rest]
  | listComprehension expr generators guards lift =>
    obtain ⟨front, conditions⟩ := forall_mem_append.mp h
    obtain ⟨element, sources⟩ := forall_mem_cons.mp front
    rw [CoreExpr.mapChildren, element, map_mapValue_bindings sources, map_eq_self conditions]
  | caseOf scrutinee clauses =>
    obtain ⟨first, rest⟩ := forall_mem_cons.mp h
    rw [CoreExpr.mapChildren, first, map_mapExprs_clauses rest]
  | tryOf body ofs catches after =>
    obtain ⟨front, cleanup⟩ := forall_mem_append.mp h
    obtain ⟨values, failures⟩ := forall_mem_append.mp front
    obtain ⟨first, rest⟩ := forall_mem_cons.mp values
    rw [CoreExpr.mapChildren, first, map_mapExprs_clauses rest, map_mapExprs_clauses failures,
      map_mapExprs_after cleanup]
  | ifOf clauses =>
    change ∀ c ∈ clauses.flatMap CoreIfClause.children, f c = c at h
    rw [CoreExpr.mapChildren, map_mapExprs_ifs h]

end mapChildren

end Terlan.CoreIr
