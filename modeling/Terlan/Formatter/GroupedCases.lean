/-
  Formatting of a case pyramid as a grouped refutable `let`. Each case of the pyramid has a
  clause that goes on and a clause that fails, all failing bodies are printed alike, and the
  formatter writes the failing body once, behind the bindings of all the continuing patterns.

  The text of an expression is a parameter, and so are the meanings of the forms other than
  `case` and of a pattern. The `else` clause of the grouped binding stands outside the scope of
  its patterns, and a continuing pattern is tried first. So the meaning is kept where the
  failing body reads no name that an enclosing case binds, and where a failing pattern that came
  first has no value in common with the pattern that goes on; the formatter checks neither.
-/
import Terlan.Lib.Method

namespace Terlan.Formatter

open Terlan.Lib List

/-! ## Syntax -/

structure MapField (π : Type) where
  key : String
  value : π
  required : Bool

inductive StringPatternSegment where
  | literal (text : String)
  | capture (name : String)

inductive Pattern where
  | wildcard
  | var (name : String)
  | int (value : Int)
  | float (bits : UInt64)
  | string (value : String)
  | stringSegments (segments : List StringPatternSegment)
  | atom (name : String)
  | atomLiteral (name : String)
  | nullaryConstructorCall (name : String)
  | tuple (children : List Pattern)
  | aliasOf (name : String) (pattern : Pattern)
  | list (children : List Pattern)
  | listCons (head tail : Pattern)
  | map (fields : List (MapField Pattern))
  | record (name : String) (fields : List (MapField Pattern))
  /-- Names of the fields. -/
  | binaryLayout (endian : String) (fields : List String)

structure CaseClause (ε : Type) where
  pattern : Pattern
  guard : Option ε
  body : ε

/-- Expressions over the forms other than `case`. -/
inductive Expr (φ : Type) where
  | case (scrutinee : Expr φ) (clauses : List (CaseClause (Expr φ)))
  | form (form : φ)

structure LetBinding (φ : Type) where
  pattern : Pattern
  value : Expr φ

/-- What a grouped refutable `let` is printed from. -/
structure GroupedLet (φ : Type) where
  bindings : List (LetBinding φ)
  elseClauses : List (CaseClause (Expr φ))
  body : Expr φ

/-! ## Names -/

mutual

def collectPatternNames : Pattern → List String
  | .var name => [name]
  | .tuple children | .list children => collectChildNames children
  | .aliasOf name pattern => name :: collectPatternNames pattern
  | .listCons head tail => collectPatternNames head ++ collectPatternNames tail
  | .map fields | .record _ fields => collectFieldNames fields
  | .stringSegments segments => segments.filterMap fun
      | .capture name => some name
      | .literal _ => none
  | .wildcard | .int _ | .float _ | .string _ | .atom _ | .atomLiteral _
  | .nullaryConstructorCall _ | .binaryLayout _ _ => []

def collectChildNames : List Pattern → List String
  | [] => []
  | child :: children => collectPatternNames child ++ collectChildNames children

def collectFieldNames : List (MapField Pattern) → List String
  | [] => []
  | ⟨_, value, _⟩ :: fields => collectPatternNames value ++ collectFieldNames fields

end

mutual

/-- Names that binary layouts in a pattern bind. `collectPatternNames` passes over these. -/
def layoutNames : Pattern → List String
  | .binaryLayout _ fields => fields
  | .tuple children | .list children => layoutChildNames children
  | .aliasOf _ pattern => layoutNames pattern
  | .listCons head tail => layoutNames head ++ layoutNames tail
  | .map fields | .record _ fields => layoutFieldNames fields
  | .wildcard | .var _ | .int _ | .float _ | .string _ | .stringSegments _ | .atom _
  | .atomLiteral _ | .nullaryConstructorCall _ => []

def layoutChildNames : List Pattern → List String
  | [] => []
  | child :: children => layoutNames child ++ layoutChildNames children

def layoutFieldNames : List (MapField Pattern) → List String
  | [] => []
  | ⟨_, value, _⟩ :: fields => layoutNames value ++ layoutFieldNames fields

end

/-- Names that a pattern binds. -/
def Pattern.names (pattern : Pattern) : List String :=
  collectPatternNames pattern ++ layoutNames pattern

def isIdentifierChar (c : Char) : Bool := c.isAlphanum || c == '_'

/-- The words between the characters that are not part of an identifier. -/
def identifiers (word : List Char) : List Char → List String
  | [] => [String.ofList word.reverse]
  | c :: source =>
    if isIdentifierChar c then identifiers (c :: word) source
    else String.ofList word.reverse :: identifiers [] source

def sourceContainsIdentifier (source expected : String) : Bool :=
  (identifiers [] source.toList).contains expected

/-! ## Disjoint patterns -/

def constructorHead : Pattern → Option String
  | .record name _ | .nullaryConstructorCall name => some name
  | .atom name | .atomLiteral name => some name
  | .var name => if name.toList.head?.any Char.isUpper then some name else none
  | .aliasOf _ pattern => constructorHead pattern
  | _ => none

def headsDiffer (left right : Pattern) : Bool :=
  match constructorHead left, constructorHead right with
  | some left, some right => left != right
  | _, _ => false

mutual

def patternsDisjoint : Pattern → Pattern → Bool
  | .int left, .int right => left != right
  | .string left, .string right => left != right
  | .tuple left, .tuple right => left.length != right.length || somePairDisjoint left right
  | left, right => headsDiffer left right

def somePairDisjoint : List Pattern → List Pattern → Bool
  | left :: lefts, right :: rights => patternsDisjoint left right || somePairDisjoint lefts rights
  | _, _ => false

end

/-! ## The rewrite -/

section format

variable {φ : Type} (formatExpr : Expr φ → String)

/-- The clause that goes on, and the one with the shared failing body. -/
def splitCaseClauses (clauses : List (CaseClause (Expr φ))) (fallbackText : String) :
    Option (CaseClause (Expr φ) × CaseClause (Expr φ)) :=
  match clauses with
  | [first, second] =>
    if first.guard.isSome || second.guard.isSome then none
    else if formatExpr first.body = fallbackText then
      if patternsDisjoint first.pattern second.pattern then some (second, first) else none
    else if formatExpr second.body = fallbackText then some (first, second)
    else none
  | _ => none

def caseHasFallback (expr : Expr φ) (fallbackText : String) : Bool :=
  match expr with
  | .case _ clauses => (splitCaseClauses formatExpr clauses fallbackText).isSome
  | .form _ => false

/-- The shared failing body of a pyramid. -/
def initialLinearCase (expr : Expr φ) : Option (Expr φ) :=
  match expr with
  | .case _ [first, second] =>
    if first.guard.isSome || second.guard.isSome then none
    else if caseHasFallback formatExpr first.body (formatExpr second.body) then some second.body
    else if caseHasFallback formatExpr second.body (formatExpr first.body) then some first.body
    else none
  | _ => none

def failureDependsOnPattern (clause : CaseClause (Expr φ)) : Bool :=
  (collectPatternNames clause.pattern).any
    (sourceContainsIdentifier (formatExpr clause.body))

theorem splitCaseClauses_mem {clauses : List (CaseClause (Expr φ))} {text : String}
    {success failure : CaseClause (Expr φ)}
    (h : splitCaseClauses formatExpr clauses text = some (success, failure)) :
    success ∈ clauses ∧ failure ∈ clauses := by
  unfold splitCaseClauses at h
  split at h
  next first second =>
    split at h
    · cases h
    split at h
    · split at h
      · cases h
        simp
      · cases h
    · split at h
      · cases h
        simp
      · cases h
  next => cases h

/-- The loop over the cases of a pyramid, with the bindings gathered so far. -/
def groupFrom (fallback : Expr φ) (bindings : List (LetBinding φ)) (expr : Expr φ) :
    Option (GroupedLet φ) :=
  match expr with
  | .form _ => none
  | .case scrutinee clauses =>
    match h : splitCaseClauses formatExpr clauses (formatExpr fallback) with
    | none => none
    | some (success, failure) =>
      if failureDependsOnPattern formatExpr failure then none
      else
        let bindings := bindings ++ [⟨success.pattern, scrutinee⟩]
        if caseHasFallback formatExpr success.body (formatExpr fallback) then
          groupFrom fallback bindings success.body
        else if bindings.length < 2 then none
        else some ⟨bindings, [⟨.wildcard, none, fallback⟩], success.body⟩
termination_by sizeOf expr
decreasing_by
  have mem := (splitCaseClauses_mem formatExpr h).1
  have := sizeOf_lt_of_mem mem
  have body : sizeOf success.body < sizeOf success := by
    rcases success with ⟨pattern, guard, body⟩
    rw [CaseClause.mk.sizeOf_spec]
    dsimp only
    omega
  rw [Expr.case.sizeOf_spec]
  omega

/-- The grouped `let` that a case expression is printed as. -/
def formatAsGroupedLet (expr : Expr φ) : Option (GroupedLet φ) :=
  (initialLinearCase formatExpr expr).bind fun fallback => groupFrom formatExpr fallback [] expr

end format

/-! ## Meaning -/

abbrev Env (Value : Type) := String → Option Value

/-- Texts of expressions, and what the forms other than `case`, and patterns, mean. -/
structure Meaning (φ Value World Failure : Type) where
  formatExpr : Expr φ → String
  evalForm : Env Value → φ → Method Failure World Value
  matchPattern : Env Value → Pattern → Value → Option (Env Value)
  isTrue : Value → Bool
  noClause : Failure

variable {φ Value World Failure : Type}

namespace Meaning

variable (meaning : Meaning φ Value World Failure)

mutual

def eval (env : Env Value) : Expr φ → Method Failure World Value
  | .form form => meaning.evalForm env form
  | .case scrutinee clauses => do
    let value ← eval env scrutinee
    evalClauses env value clauses

/-- The first clause whose pattern and guard accept the value. -/
def evalClauses (env : Env Value) (value : Value) :
    List (CaseClause (Expr φ)) → Method Failure World Value
  | [] => throw meaning.noClause
  | ⟨pattern, none, body⟩ :: clauses =>
    match meaning.matchPattern env pattern value with
    | some inner => eval inner body
    | none => evalClauses env value clauses
  | ⟨pattern, some guard, body⟩ :: clauses =>
    match meaning.matchPattern env pattern value with
    | some inner => do
      let accepted ← eval inner guard
      if meaning.isTrue accepted then eval inner body else evalClauses env value clauses
    | none => evalClauses env value clauses

end

/-- The bindings in order; the `else` clauses are read in the scope around all of them. -/
def evalBindings (outer : Env Value) (elseClauses : List (CaseClause (Expr φ))) (body : Expr φ) :
    Env Value → List (LetBinding φ) → Method Failure World Value
  | env, [] => meaning.eval env body
  | env, ⟨pattern, value⟩ :: bindings => do
    let value ← meaning.eval env value
    match meaning.matchPattern env pattern value with
    | some inner => evalBindings outer elseClauses body inner bindings
    | none => meaning.evalClauses outer value elseClauses

def evalGroupedLet (env : Env Value) (grouped : GroupedLet φ) : Method Failure World Value :=
  meaning.evalBindings env grouped.elseClauses grouped.body env grouped.bindings

/-- An expression reads only the names in its text, and a pattern binds only its own. -/
structure Lawful : Prop where
  reads : ∀ expr env env', (∀ name, sourceContainsIdentifier (meaning.formatExpr expr) name = true →
    env name = env' name) → meaning.eval env expr = meaning.eval env' expr
  binds : ∀ env pattern value inner, meaning.matchPattern env pattern value = some inner →
    ∀ name ∉ pattern.names, inner name = env name
  wildcard : ∀ env value, meaning.matchPattern env .wildcard value = some env

/-- In every case that a run comes to, some clause has a pattern for the value. -/
inductive Exhaustive : Env Value → Expr φ → Prop
  | form (env : Env Value) (form : φ) : Exhaustive env (.form form)
  | case {env : Env Value} {scrutinee : Expr φ} {clauses : List (CaseClause (Expr φ))}
      (covered : ∀ s s' value, (meaning.eval env scrutinee).call s = (s', .ok value) →
        ∃ clause ∈ clauses, ∃ inner, meaning.matchPattern env clause.pattern value = some inner)
      (inside : ∀ clause ∈ clauses, ∀ value inner,
        meaning.matchPattern env clause.pattern value = some inner → Exhaustive inner clause.body) :
      Exhaustive env (.case scrutinee clauses)

/-- No value is matched by both. -/
def Apart (left right : Pattern) : Prop :=
  ∀ env value, meaning.matchPattern env left value = none ∨
    meaning.matchPattern env right value = none

/-- In a pyramid under the names `bound`: every failing body is the shared one, which reads no
name bound by an enclosing case and none bound by a binary layout of the failing pattern, and a
failing pattern that comes first is apart from the one that goes on. -/
inductive Scoped (fallback : Expr φ) : List String → Expr φ → Prop
  | case {bound : List String} {scrutinee : Expr φ} {clauses : List (CaseClause (Expr φ))}
      {success failure : CaseClause (Expr φ)}
      (split : splitCaseClauses meaning.formatExpr clauses (meaning.formatExpr fallback) =
        some (success, failure))
      (same : failure.body = fallback)
      (unread : ∀ name ∈ bound ++ layoutNames failure.pattern,
        sourceContainsIdentifier (meaning.formatExpr fallback) name = false)
      (apart : clauses = [failure, success] → meaning.Apart failure.pattern success.pattern)
      (next : caseHasFallback meaning.formatExpr success.body (meaning.formatExpr fallback) = true →
        Scoped fallback (bound ++ success.pattern.names) success.body) :
      Scoped fallback bound (.case scrutinee clauses)

end Meaning

/-! ## One case -/

section level

variable {meaning : Meaning φ Value World Failure}

variable {success failure : CaseClause (Expr φ)} {clauses : List (CaseClause (Expr φ))}

theorem splitCaseClauses_spec {formatExpr : Expr φ → String} {text : String}
    (h : splitCaseClauses formatExpr clauses text = some (success, failure)) :
    success.guard = none ∧ failure.guard = none ∧
      (clauses = [success, failure] ∨ clauses = [failure, success]) := by
  unfold splitCaseClauses at h
  split at h
  next first second =>
    split at h
    · cases h
    next unguarded =>
    simp only [Bool.or_eq_true, not_or, Option.not_isSome_iff_eq_none] at unguarded
    split at h
    · split at h
      · cases h
        exact ⟨unguarded.2, unguarded.1, .inr rfl⟩
      · cases h
    · split at h
      · cases h
        exact ⟨unguarded.1, unguarded.2, .inl rfl⟩
      · cases h
  next => cases h

/-- A case that goes on is its continuing clause. -/
theorem evalClauses_success {env inner : Env Value} {value : Value}
    (unguarded : success.guard = none) (order : clauses = [success, failure] ∨
      clauses = [failure, success] ∧ meaning.matchPattern env failure.pattern value = none)
    (accepts : meaning.matchPattern env success.pattern value = some inner) :
    meaning.evalClauses env value clauses = meaning.eval inner success.body := by
  obtain ⟨pattern, guard, body⟩ := success
  obtain ⟨pattern', guard', body'⟩ := failure
  obtain rfl := unguarded
  rcases order with rfl | ⟨rfl, differs⟩
  · rw [Meaning.evalClauses, accepts]
  · cases guard' with
    | none | some => rw [Meaning.evalClauses, differs, Meaning.evalClauses, accepts]

/-- A case that does not go on is its failing clause. -/
theorem evalClauses_failure {env inner : Env Value} {value : Value}
    (unguarded : success.guard = none) (unguarded' : failure.guard = none)
    (order : clauses = [success, failure] ∨ clauses = [failure, success])
    (differs : meaning.matchPattern env success.pattern value = none)
    (accepts : meaning.matchPattern env failure.pattern value = some inner) :
    meaning.evalClauses env value clauses = meaning.eval inner failure.body := by
  obtain ⟨pattern, guard, body⟩ := success
  obtain ⟨pattern', guard', body'⟩ := failure
  obtain rfl := unguarded
  obtain rfl := unguarded'
  rcases order with rfl | rfl
  · rw [Meaning.evalClauses, differs, Meaning.evalClauses, accepts]
  · rw [Meaning.evalClauses, accepts]

/-- The shared body reads the same in the scope of a failing clause and around the pyramid. -/
theorem eval_fallback (lawful : meaning.Lawful) {fallback : Expr φ} {bound : List String}
    {outer env inner : Env Value} {value : Value} {failure : CaseClause (Expr φ)}
    (same : failure.body = fallback) (unread : ∀ name ∈ bound ++ layoutNames failure.pattern,
      sourceContainsIdentifier (meaning.formatExpr fallback) name = false)
    (independent : failureDependsOnPattern meaning.formatExpr failure = false)
    (agree : ∀ name ∉ bound, env name = outer name)
    (accepts : meaning.matchPattern env failure.pattern value = some inner) :
    meaning.eval inner failure.body = meaning.eval outer fallback := by
  rw [same]
  refine lawful.reads fallback inner outer fun name read => ?_
  have outside : name ∉ bound ++ layoutNames failure.pattern := by
    intro mem
    rw [unread name mem] at read
    cases read
  rw [mem_append, not_or] at outside
  have unbound : name ∉ failure.pattern.names := by
    unfold Pattern.names
    rw [mem_append, not_or]
    refine ⟨fun mem => ?_, outside.2⟩
    unfold failureDependsOnPattern at independent
    rw [same, any_eq_false] at independent
    exact independent name mem read
  rw [lawful.binds env failure.pattern value inner accepts name unbound]
  exact agree name outside.1

end level

/-! ## The pyramid -/

variable {meaning : Meaning φ Value World Failure}

variable {formatExpr : Expr φ → String}

/-- One step of the loop, at a case whose clauses are split. -/
theorem groupFrom_split {fallback scrutinee : Expr φ}
    {clauses : List (CaseClause (Expr φ))} {bindings : List (LetBinding φ)}
    {success failure : CaseClause (Expr φ)}
    (split : splitCaseClauses formatExpr clauses (formatExpr fallback) = some (success, failure)) :
    groupFrom formatExpr fallback bindings (.case scrutinee clauses) =
      if failureDependsOnPattern formatExpr failure then none
      else if caseHasFallback formatExpr success.body (formatExpr fallback) then
        groupFrom formatExpr fallback (bindings ++ [⟨success.pattern, scrutinee⟩]) success.body
      else if (bindings ++ [(⟨success.pattern, scrutinee⟩ : LetBinding φ)]).length < 2 then none
      else some ⟨bindings ++ [⟨success.pattern, scrutinee⟩], [⟨.wildcard, none, fallback⟩],
        success.body⟩ := by
  rw [groupFrom]
  split
  next none =>
    rw [split] at none
    cases none
  next success' failure' split' =>
    rw [split] at split'
    cases split'
    rfl

theorem groupFrom_case {fallback scrutinee : Expr φ}
    {clauses : List (CaseClause (Expr φ))} {bindings : List (LetBinding φ)}
    {grouped : GroupedLet φ} {success failure : CaseClause (Expr φ)}
    (split : splitCaseClauses formatExpr clauses (formatExpr fallback) = some (success, failure))
    (group : groupFrom formatExpr fallback bindings (.case scrutinee clauses) = some grouped) :
    failureDependsOnPattern formatExpr failure = false ∧
      (caseHasFallback formatExpr success.body (formatExpr fallback) = true ∧
          groupFrom formatExpr fallback (bindings ++ [⟨success.pattern, scrutinee⟩]) success.body =
            some grouped ∨ caseHasFallback formatExpr success.body (formatExpr fallback) = false ∧
          grouped = ⟨bindings ++ [⟨success.pattern, scrutinee⟩], [⟨.wildcard, none, fallback⟩],
            success.body⟩) := by
  rw [groupFrom_split split, Option.ite_none_left_eq_some] at group
  obtain ⟨independent, group⟩ := group
  refine ⟨Bool.eq_false_iff.mpr independent, ?_⟩
  split at group
  next more => exact .inl ⟨more, group⟩
  next last =>
    rw [Option.ite_none_left_eq_some] at group
    exact .inr ⟨Bool.eq_false_iff.mpr last, (Option.some.inj group.2).symm⟩

theorem elseClauses_groupFrom {fallback expr : Expr φ}
    {bindings : List (LetBinding φ)} {grouped : GroupedLet φ}
    (group : groupFrom formatExpr fallback bindings expr = some grouped) :
    grouped.elseClauses = [⟨.wildcard, none, fallback⟩] := by
  induction bindings, expr using groupFrom.induct formatExpr fallback with
  | case1 bindings form =>
    rw [groupFrom] at group
    cases group
  | case2 bindings scrutinee clauses none =>
    rw [groupFrom] at group
    split at group
    · cases group
    next some =>
      rw [none] at some
      cases some
  | case3 bindings scrutinee clauses success failure split depends =>
    rw [(groupFrom_case split group).1] at depends
    cases depends
  | case4 bindings scrutinee clauses success failure split _ _ more ih =>
    rcases (groupFrom_case split group).2 with ⟨_, group⟩ | ⟨last, _⟩
    · exact ih group
    · rw [more] at last
      cases last
  | case5 bindings scrutinee clauses success failure split _ _ last
  | case6 bindings scrutinee clauses success failure split _ _ last =>
    rcases (groupFrom_case split group).2 with ⟨more, _⟩ | ⟨_, rfl⟩
    · exact absurd more last
    · rfl

/-- The bindings gathered from a case evaluate as the case does. -/
theorem evalBindings_groupFrom (lawful : meaning.Lawful) {fallback : Expr φ} {outer : Env Value}
    {bindings : List (LetBinding φ)} {expr : Expr φ} {grouped : GroupedLet φ} {bound : List String}
    (keeps : meaning.Scoped fallback bound expr)
    (group : groupFrom meaning.formatExpr fallback bindings expr = some grouped) :
    ∃ rest, grouped.bindings = bindings ++ rest ∧ ∀ env,
      (∀ name ∉ bound, env name = outer name) → meaning.Exhaustive env expr → ∀ s,
      (meaning.evalBindings outer [⟨.wildcard, none, fallback⟩] grouped.body env rest).call s =
        (meaning.eval env expr).call s := by
  induction keeps generalizing bindings with
  | @case bound scrutinee clauses success failure split same unread apart next ih =>
    obtain ⟨independent, goes⟩ := groupFrom_case split group
    obtain ⟨unguarded, unguarded', order⟩ := splitCaseClauses_spec split
    -- what comes after the binding of this case
    have continued : ∃ rest, grouped.bindings = bindings ++ ⟨success.pattern, scrutinee⟩ :: rest ∧
        ∀ env, (∀ name ∉ bound ++ success.pattern.names, env name = outer name) →
          meaning.Exhaustive env success.body → ∀ s,
          (meaning.evalBindings outer [⟨.wildcard, none, fallback⟩] grouped.body env rest).call s =
            (meaning.eval env success.body).call s := by
      rcases goes with ⟨more, group⟩ | ⟨_, rfl⟩
      · obtain ⟨rest, eq, evaluates⟩ := ih more group
        exact ⟨rest, by rw [eq, append_assoc]; rfl, evaluates⟩
      · exact ⟨[], rfl, fun env _ _ s => by rw [Meaning.evalBindings]⟩
    obtain ⟨rest, eq, evaluates⟩ := continued
    refine ⟨_, eq, fun env agree exhaustive s => ?_⟩
    cases exhaustive with
    | case covered inside =>
    rw [Meaning.evalBindings, Meaning.eval, call_bind, call_bind]
    rcases run : (meaning.eval env scrutinee).call s with ⟨s', e | value⟩
    · rfl
    dsimp only
    cases accepts : meaning.matchPattern env success.pattern value with
    | some inner =>
      have order' : clauses = [success, failure] ∨
          clauses = [failure, success] ∧
            meaning.matchPattern env failure.pattern value = none := by
        rcases order with first | second
        · exact .inl first
        refine .inr ⟨second, ?_⟩
        rcases apart second env value with none | none
        · exact none
        · rw [accepts] at none
          cases none
      rw [evalClauses_success unguarded order' accepts]
      refine evaluates inner (fun name outside => ?_) ?_ s'
      · rw [mem_append, not_or] at outside
        rw [lawful.binds env success.pattern value inner accepts name outside.2]
        exact agree name outside.1
      · exact inside success (splitCaseClauses_mem _ split).1 value inner accepts
    | none =>
      obtain ⟨clause, mem, inner, accepts'⟩ := covered s s' value run
      have failed : meaning.matchPattern env failure.pattern value = some inner := by
        have either : clause = success ∨ clause = failure := by
          rcases order with rfl | rfl
          · simpa using mem
          · simpa [or_comm] using mem
        rcases either with rfl | rfl
        · rw [accepts] at accepts'
          cases accepts'
        · exact accepts'
      rw [evalClauses_failure unguarded unguarded' order accepts failed,
        eval_fallback lawful same unread independent agree failed]
      dsimp only
      rw [Meaning.evalClauses, lawful.wildcard]

/-! ## The condition -/

/-- The shared body of the pyramid can stand around it. -/
def Meaning.KeepsScope (meaning : Meaning φ Value World Failure) (expr : Expr φ) : Prop :=
  ∀ fallback, initialLinearCase meaning.formatExpr expr = some fallback →
    meaning.Scoped fallback [] expr

/-- Variables of the sample expressions. -/
inductive Sample where
  | a | b | x | y

def Sample.name : Sample → String
  | .a => "a"
  | .b => "b"
  | .x => "x"
  | .y => "y"

inductive SampleValue where
  | int (value : Int)
  | absent
  | present (value : Int)
deriving DecidableEq

def Sample.bind (env : Env SampleValue) (name : String) (value : SampleValue) : Env SampleValue :=
  fun other => if other = name then some value else env other

def Sample.matchPattern (env : Env SampleValue) : Pattern → SampleValue → Option (Env SampleValue)
  | .wildcard, _ => some env
  | .var name, value => some (Sample.bind env name value)
  | .tuple [.atom "None"], .absent => some env
  | .tuple [.atom "Some", .var name], .present value => some (Sample.bind env name (.int value))
  | _, _ => none

/-- Optional integers, and variables. -/
def sampleMeaning : Meaning Sample SampleValue Unit String where
  formatExpr := fun
    | .form sample => sample.name
    | .case _ _ => "case a b x y"
  evalForm := fun env sample =>
    match env sample.name with
    | some value => pure value
    | none => throw sample.name
  matchPattern := Sample.matchPattern
  isTrue := fun value => value == .int 1
  noClause := "no clause"

def sampleNames : List String := ["a", "b", "x", "y"]

def Agree (env env' : Env SampleValue) : Prop := ∀ name ∈ sampleNames, env name = env' name

theorem Agree.bind {env env' : Env SampleValue} (agree : Agree env env') (name : String)
    (value : SampleValue) : Agree (Sample.bind env name value) (Sample.bind env' name value) := by
  intro other mem
  unfold Sample.bind
  rw [agree other mem]

theorem matchPattern_agree {env env' : Env SampleValue} (agree : Agree env env')
    (pattern : Pattern) (value : SampleValue) :
    Sample.matchPattern env pattern value = none ∧ Sample.matchPattern env' pattern value = none ∨
      ∃ inner inner', Sample.matchPattern env pattern value = some inner ∧
        Sample.matchPattern env' pattern value = some inner' ∧ Agree inner inner' := by
  unfold Sample.matchPattern
  split
  · exact .inr ⟨env, env', rfl, rfl, agree⟩
  · exact .inr ⟨_, _, rfl, rfl, agree.bind _ _⟩
  · exact .inr ⟨env, env', rfl, rfl, agree⟩
  · exact .inr ⟨_, _, rfl, rfl, agree.bind _ _⟩
  · exact .inl ⟨rfl, rfl⟩

mutual

/-- Only the names of the sample are read. -/
theorem eval_agree {env env' : Env SampleValue} (agree : Agree env env') :
    (expr : Expr Sample) → sampleMeaning.eval env expr = sampleMeaning.eval env' expr
  | .form sample => by
    have same : env sample.name = env' sample.name := by
      refine agree sample.name ?_
      cases sample <;> decide
    rw [Meaning.eval, Meaning.eval]
    simp only [sampleMeaning, same]
  | .case scrutinee clauses => by
    rw [Meaning.eval, Meaning.eval, eval_agree agree scrutinee]
    congr 1
    funext value
    exact evalClauses_agree agree value clauses

theorem evalClauses_agree {env env' : Env SampleValue} (agree : Agree env env')
    (value : SampleValue) : (clauses : List (CaseClause (Expr Sample))) →
    sampleMeaning.evalClauses env value clauses = sampleMeaning.evalClauses env' value clauses
  | [] => by rw [Meaning.evalClauses, Meaning.evalClauses]
  | ⟨pattern, none, body⟩ :: clauses => by
    rw [Meaning.evalClauses, Meaning.evalClauses]
    rcases matchPattern_agree agree pattern value with ⟨h, h'⟩ | ⟨inner, inner', h, h', agree'⟩
    · simp only [sampleMeaning, h, h']
      exact evalClauses_agree agree value clauses
    · simp only [sampleMeaning, h, h']
      exact eval_agree agree' body
  | ⟨pattern, some guard, body⟩ :: clauses => by
    rw [Meaning.evalClauses, Meaning.evalClauses]
    rcases matchPattern_agree agree pattern value with ⟨h, h'⟩ | ⟨inner, inner', h, h', agree'⟩
    · simp only [sampleMeaning, h, h']
      exact evalClauses_agree agree value clauses
    have rest := evalClauses_agree agree value clauses
    have inside := eval_agree agree' body
    have guarded := eval_agree agree' guard
    simp only [sampleMeaning, h, h'] at rest inside guarded ⊢
    rw [rest, inside, guarded]

end

theorem sampleMeaning_lawful : sampleMeaning.Lawful where
  reads := by
    intro expr env env' same
    cases expr with
    | form sample =>
      have read : sourceContainsIdentifier sample.name sample.name = true := by
        cases sample <;> decide
      rw [Meaning.eval, Meaning.eval]
      simp only [sampleMeaning, same sample.name read]
    | case scrutinee clauses =>
      have all : sampleNames.all (sourceContainsIdentifier "case a b x y") = true := by decide
      exact eval_agree (fun name mem => same name (all_eq_true.mp all name mem)) _
  binds := by
    intro env pattern value inner accepts name unbound
    simp only [sampleMeaning, Sample.matchPattern] at accepts
    split at accepts
    · cases accepts
      rfl
    · cases accepts
      simp only [Pattern.names, collectPatternNames, layoutNames, append_nil,
        mem_singleton] at unbound
      simp [Sample.bind, unbound]
    · cases accepts
      rfl
    · cases accepts
      simp only [Pattern.names, collectPatternNames, collectChildNames, layoutNames,
        layoutChildNames, append_nil, nil_append, mem_singleton] at unbound
      simp [Sample.bind, unbound]
    · cases accepts
  wildcard := fun _ _ => rfl

def somePattern (name : String) : Pattern := .tuple [.atom "Some", .var name]

def nonePattern : Pattern := .tuple [.atom "None"]

def innerCase : Expr Sample :=
  .case (.form .b) [⟨somePattern "y", none, .form .y⟩, ⟨nonePattern, none, .form .x⟩]

/-- `case a { Some(outer) -> case b { Some(y) -> y; None -> x }; None -> x }`. -/
def pyramid (outer : String) : Expr Sample :=
  .case (.form .a) [⟨somePattern outer, none, innerCase⟩, ⟨nonePattern, none, .form .x⟩]

def pyramidLet (outer : String) : GroupedLet Sample where
  bindings := [⟨somePattern outer, .form .a⟩, ⟨somePattern "y", .form .b⟩]
  elseClauses := [⟨.wildcard, none, .form .x⟩]
  body := .form .y

/-- The failing clause stands second. -/
theorem splitCaseClauses_second {pattern pattern' : Pattern}
    {body body' : Expr φ} {text : String} (differs : formatExpr body ≠ text)
    (same : formatExpr body' = text) :
    splitCaseClauses formatExpr [⟨pattern, none, body⟩, ⟨pattern', none, body'⟩] text =
      some (⟨pattern, none, body⟩, ⟨pattern', none, body'⟩) := by
  unfold splitCaseClauses
  dsimp only
  rw [if_neg (by simp), if_neg differs, if_pos same]

theorem splitCaseClauses_inner : splitCaseClauses sampleMeaning.formatExpr
      [⟨somePattern "y", none, .form .y⟩, ⟨nonePattern, none, .form .x⟩]
      (sampleMeaning.formatExpr (.form .x)) =
        some (⟨somePattern "y", none, .form .y⟩, ⟨nonePattern, none, .form .x⟩) :=
  splitCaseClauses_second (by decide) rfl

theorem splitCaseClauses_outer (outer : String) : splitCaseClauses sampleMeaning.formatExpr
      [⟨somePattern outer, none, innerCase⟩, ⟨nonePattern, none, .form .x⟩]
      (sampleMeaning.formatExpr (.form .x)) =
        some (⟨somePattern outer, none, innerCase⟩, ⟨nonePattern, none, .form .x⟩) :=
  splitCaseClauses_second (by decide) rfl

theorem caseHasFallback_inner : caseHasFallback sampleMeaning.formatExpr innerCase
    (sampleMeaning.formatExpr (.form .x)) = true := by
  unfold caseHasFallback innerCase
  dsimp only
  rw [splitCaseClauses_inner]
  rfl

theorem initialLinearCase_pyramid (outer : String) :
    initialLinearCase sampleMeaning.formatExpr (pyramid outer) = some (.form .x) := by
  unfold initialLinearCase pyramid
  dsimp only
  rw [if_neg (by simp), if_pos caseHasFallback_inner]

theorem formatAsGroupedLet_pyramid (outer : String) :
    formatAsGroupedLet sampleMeaning.formatExpr (pyramid outer) = some (pyramidLet outer) := by
  have independent : failureDependsOnPattern sampleMeaning.formatExpr
      ⟨nonePattern, none, .form .x⟩ = false := by decide
  have last : caseHasFallback sampleMeaning.formatExpr (.form .y)
      (sampleMeaning.formatExpr (.form .x)) = false := rfl
  unfold formatAsGroupedLet
  rw [initialLinearCase_pyramid, Option.bind_some, pyramid,
    groupFrom_split (splitCaseClauses_outer outer), independent]
  simp only [Bool.false_eq_true, if_false]
  rw [if_pos caseHasFallback_inner, innerCase, groupFrom_split splitCaseClauses_inner, independent,
    last]
  rfl

/-- `a` is present, `b` is not, and `x` is a number. -/
def sampleEnv : Env SampleValue
  | "a" => some (.present 1)
  | "b" => some .absent
  | "x" => some (.int 7)
  | _ => none

theorem innerCase_exhaustive {env : Env SampleValue} (b : env "b" = some .absent) :
    sampleMeaning.Exhaustive env innerCase := by
  refine .case (fun s s' value run => ?_) fun clause mem value inner _ => ?_
  · have absent : value = .absent := by
      rw [Meaning.eval] at run
      simp only [sampleMeaning, Sample.name, b] at run
      cases run
      rfl
    subst absent
    exact ⟨⟨nonePattern, none, .form .x⟩, by simp, env, rfl⟩
  · rcases mem_pair.mp mem with rfl | rfl
    · exact .form _ _
    · exact .form _ _

theorem pyramid_exhaustive {outer : String} (other : outer ≠ "b") :
    sampleMeaning.Exhaustive sampleEnv (pyramid outer) := by
  refine .case (fun s s' value run => ?_) fun clause mem value inner accepts => ?_
  · have present : value = .present 1 := by
      rw [Meaning.eval] at run
      cases run
      rfl
    subst present
    exact ⟨⟨somePattern outer, none, innerCase⟩, by simp, _, rfl⟩
  · rcases mem_pair.mp mem with rfl | rfl
    · refine innerCase_exhaustive ?_
      have kept := sampleMeaning_lawful.binds sampleEnv (somePattern outer) value inner accepts "b"
        (by simp [Pattern.names, somePattern, collectPatternNames, collectChildNames, layoutNames,
          layoutChildNames, other.symm])
      rw [kept]
      rfl
    · exact .form _ _

theorem some_first {outer : String} {body body' : Expr Sample}
    (order : [(⟨somePattern outer, none, body⟩ : CaseClause (Expr Sample)),
      ⟨nonePattern, none, body'⟩] = [⟨nonePattern, none, body'⟩, ⟨somePattern outer, none, body⟩]) :
    False := by
  have same := congrArg CaseClause.pattern (List.cons.inj order).1
  simp [somePattern, nonePattern] at same

theorem pyramid_keepsScope : sampleMeaning.KeepsScope (pyramid "left") := by
  intro fallback shared
  rw [initialLinearCase_pyramid] at shared
  obtain rfl := Option.some.inj shared
  refine .case (splitCaseClauses_outer "left") rfl (by decide) (fun order => (some_first order).elim) fun _ => ?_
  refine .case splitCaseClauses_inner rfl ?_ (fun order => (some_first order).elim) fun more => ?_
  · decide
  · cases more

end Terlan.Formatter
