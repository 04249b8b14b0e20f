/-
  What rewriting the constant arguments of a type text does. A run that succeeds has rewritten
  the first bracket of the text and, by the same rule, of each argument inside it; the text after
  that bracket it has left alone. When a bracket stands there the run starts over on what it has
  rebuilt and, since rewriting twice is rewriting once, never ends.

  So the rewriting is what it should be exactly for texts with one bracket in every argument,
  written with the spacing that the arguments are joined with again.
-/
import Terlan.ValueLifecycle.ConstGenericTexts

namespace Terlan.ValueLifecycle

open Terlan.Lib List
open Terlan.Syntax

/-! ## The parameters of the model -/

/-- The names of atoms that have no brackets, quotes or escapes in them. -/
def IsWord (name : String) : Prop := ∀ c ∈ name.toList, (c.isAlphanum || c == '_') = true

/-- The expression is the literal of a value. -/
def IsLiteral : ConstValue → SyntaxExprOutput → Prop
  | .int value, expr =>
    if 0 ≤ value then expr.kind = .int ∧ expr.text.bind parseI64 = some value
    else expr.kind = .unaryOp
  | .bool value, expr => expr.kind = .var ∧ expr.text = some (if value then "true" else "false")
  | .atom value, expr => expr.kind = .atom ∧ expr.text = some value
  | _, _ => False

/-- What rewriting relies on: the debug form of a word, that the text of a value is parsed as the
literal of that value, and that atoms are words. -/
structure ConstGenerics.Lawful (generics : ConstGenerics) : Prop where
  debug_word : ∀ name, IsWord name → generics.texts.debug name = "\"" ++ name ++ "\""
  parse_text : ∀ parameter value text expr, (∀ name, value = .atom name → IsWord name) →
    argumentText generics.texts parameter value = .ok text →
    generics.texts.parse (argumentSource parameter.kind text) = some (some expr) →
    IsLiteral value expr
  words : ∀ source expr s s' name, generics.texts.parse source = some (some expr) →
    (evaluateExpr generics.floats generics.constants (stepLimit + 1) expr fun _ => none).call s =
      (s', .ok (.atom name)) → IsWord name

/-! ## One argument -/

section resolve

variable {generics : ConstGenerics}

/-- The evaluator gives the value for the argument of a parameter. -/
def Resolves (generics : ConstGenerics) (parameter : ConstGenericParam) (arg value : TypeText) :
    Prop :=
  ∃ s s', (resolveConstGenericArgument generics parameter arg).call s = (s', .ok value)

variable {parameter : ConstGenericParam}

/-- An argument is a constant parameter in scope, or an expression that is evaluated. -/
theorem Resolves.cases {arg text : TypeText} (h : Resolves generics parameter arg text) :
    text = trimText arg ∧ generics.inScope (String.ofList text) = some parameter.kind ∨
      generics.inScope (String.ofList (trimText arg)) = none ∧ ∃ expr s s' value printed,
        generics.texts.parse (argumentSource parameter.kind (String.ofList (trimText arg))) =
          some (some expr) ∧ constGenericArgumentShapeIsAllowed generics.constants s expr = true ∧
        (evaluateExpr generics.floats generics.constants (stepLimit + 1) expr fun _ => none).call s =
          (s', .ok value) ∧
        argumentText generics.texts parameter value = .ok printed ∧ text = printed.toList := by
  obtain ⟨s, s', run⟩ := h
  unfold resolveConstGenericArgument at run
  simp only at run
  cases scope : generics.inScope (String.ofList (trimText arg)) with
  | some kind =>
    rw [scope] at run
    simp only [call_ite] at run
    split at run
    next same =>
      cases run
      refine .inl ⟨by simp, ?_⟩
      rw [String.ofList_toList, scope, same]
    next => cases run
  | none =>
    rw [scope] at run
    obtain ⟨s₁, expr, parsed, run⟩ := call_bind_ok_iff.mp run
    rw [call_lift, Prod.mk.injEq] at parsed
    obtain ⟨rfl, parsed⟩ := parsed
    rw [call_get_bind, call_ite] at run
    split at run
    next allowed =>
      obtain ⟨s₂, value, evaluated, run⟩ := call_bind_ok_iff.mp run
      obtain ⟨s₃, printed, prints, run⟩ := call_bind_ok_iff.mp run
      rw [call_lift, Prod.mk.injEq] at prints
      cases run
      refine .inr ⟨rfl, expr, s, s₂, value, printed, ?_, allowed, evaluated, prints.2, rfl⟩
      unfold parseConstGenericArgument at parsed
      split at parsed
      next => cases parsed
      next => cases parsed
      next source => rw [source, Except.ok.inj parsed]
    next => cases run

/-! ## Texts of values -/

def isPlainChar (c : Char) : Bool := c.isAlphanum || c == '_' || c == '-' || c == '"'

theorem isAlphanum_eq (c : Char) : c.isAlphanum =
    ((decide (c.val ≥ 65 ∧ c.val ≤ 90) || (c.val ≥ 97 && c.val ≤ 122)) ||
      (c.val ≥ 48 && c.val ≤ 57)) := rfl

theorem isPlainChar_bounds {c : Char} (h : isPlainChar c = true) :
    34 ≤ c.toNat ∧ c.toNat ≤ 122 := by
  simp only [isPlainChar, isAlphanum_eq, Bool.or_eq_true, Bool.and_eq_true, decide_eq_true_eq, beq_iff_eq, UInt32.le_iff_toNat_le] at h
  rcases h with ((((h | h) | h) | rfl) | rfl) | rfl <;> first | decide | (simp at h; omega)

theorem bracketMark_plainChar {c : Char} (h : isPlainChar c = true) : bracketMark c = .plain := by
  unfold bracketMark
  split <;> first | rfl | (revert h; decide)

theorem isWhitespace_plainChar {c : Char} (h : isPlainChar c = true) : isWhitespace c = false := by
  have := isPlainChar_bounds h
  simp only [isWhitespace, Bool.or_eq_false_iff, Bool.and_eq_false_iff, decide_eq_false_iff_not,
    UInt32.le_iff_toNat_le, beq_eq_false_iff_ne, ne_eq, ← UInt32.toNat_inj]
  simp
  omega

theorem utf8Size_plainChar {c : Char} (h : isPlainChar c = true) : c.utf8Size = 1 := by
  have := isPlainChar_bounds h
  rw [Char.utf8Size_eq_one_iff, UInt32.le_iff_toNat_le]
  exact this.2.trans (by decide)

def IsPlain (text : TypeText) : Prop := ∀ c ∈ text, isPlainChar c = true

variable {text : TypeText}

theorem scan_plain (plain : IsPlain text) (pending : List Bracket) :
    scan bracketMark isComma pending text = some pending := by
  induction text with
  | nil => rfl
  | cons c text ih =>
    have isPlain := plain c mem_cons_self
    have other : isComma c = false := by
      by_contra comma
      have : c = ',' := by simpa [isComma] using comma
      subst this
      revert isPlain
      decide
    simp only [scan, bracketMark_plainChar isPlain, other, Bool.false_and]
    exact ih fun d mem => plain d (mem_cons_of_mem _ mem)

theorem isArg_plain (plain : IsPlain text) : IsArg text := by
  refine ⟨scan_plain plain [], fun c mem => ?_, fun c mem => ?_⟩
  · exact isWhitespace_plainChar (plain c (mem_of_mem_head? mem))
  · exact isWhitespace_plainChar (plain c (mem_of_getLast? mem))

theorem isPlain_repr (n : Nat) : IsPlain (toString n).toList := by
  intro c mem
  have mem : c ∈ n.repr.toList := mem
  rw [Nat.toList_repr] at mem
  have := Nat.isDigit_of_mem_toDigits (by decide) (by decide) mem
  simp [isPlainChar, Char.isAlphanum, this]

theorem isPlain_toString (n : Int) : IsPlain (toString n).toList := by
  have eq : toString n = n.repr := rfl
  rw [eq, Int.repr_eq_if]
  split
  · exact isPlain_repr _
  intro c mem
  rw [String.toList_append] at mem
  rcases mem_append.mp mem with mem | mem
  · have : c = '-' := by simpa using mem
    subst this
    rfl
  · exact isPlain_repr _ c mem

/-- Texts of values: plain ones, and those of atoms. -/
def IsValueText (text : TypeText) : Prop :=
  IsPlain text ∨ ∃ name, IsPlain name ∧ text = group ['A', 't', 'o', 'm'] name []

theorem argumentText_cases {texts : ArgumentText}
    {value : ConstValue} {printed : String} (h : argumentText texts parameter value = .ok printed) :
    (∃ n, parameter.kind = "Int" ∧ value = .int n ∧ printed = toString n) ∨
      (∃ b, parameter.kind = "Bool" ∧ value = .bool b ∧
        printed = if b then "true" else "false") ∨
      ∃ name, parameter.kind = "Atom" ∧ value = .atom name ∧
        printed = "Atom[" ++ texts.debug name ++ "]" := by
  unfold argumentText at h
  split at h
  next n kind => exact .inl ⟨n, kind, rfl, (Except.ok.inj h).symm⟩
  next b kind => exact .inr (.inl ⟨b, kind, rfl, (Except.ok.inj h).symm⟩)
  next name kind => exact .inr (.inr ⟨name, kind, rfl, (Except.ok.inj h).symm⟩)
  next => cases h

theorem isValueText {value : ConstValue} {printed : String}
    (lawful : generics.Lawful) (words : ∀ name, value = .atom name → IsWord name)
    (h : argumentText generics.texts parameter value = .ok printed) :
    IsValueText printed.toList := by
  rcases argumentText_cases h with ⟨n, _, _, rfl⟩ | ⟨b, _, _, rfl⟩ | ⟨name, _, isAtom, rfl⟩
  · exact .inl (isPlain_toString n)
  · refine .inl ?_
    cases b <;> exact all_eq_true.mp (by decide)
  refine .inr ⟨'"' :: (name.toList ++ ['"']), ?_, ?_⟩
  · intro c mem
    rw [mem_cons, mem_append, mem_singleton] at mem
    rcases mem with rfl | mem | rfl
    · rfl
    · have := words name isAtom c mem
      simp only [Bool.or_eq_true] at this
      unfold isPlainChar
      rcases this with h | h <;> simp [h]
    · rfl
  · rw [lawful.debug_word name (words name isAtom)]
    simp [group, String.toList_append]

theorem IsValueText.isArg (h : IsValueText text) : IsArg text := by
  rcases h with plain | ⟨name, plain, rfl⟩
  · exact isArg_plain plain
  refine ⟨?_, ?_, ?_⟩
  · have empty : Nested bracketMark [] := rfl
    exact (scan_group empty (isArg_plain plain).piece.nested).trans rfl
  · intro c mem
    cases mem
    rfl
  · intro c mem
    simp only [group, getLast?_append, getLast?_cons] at mem
    cases mem
    rfl

theorem IsValueText.isAscii (h : IsValueText text) : IsAscii text := by
  rcases h with plain | ⟨name, plain, rfl⟩
  · exact fun c mem => utf8Size_plainChar (plain c mem)
  · refine isAscii_group.mpr ⟨?_, fun c mem => utf8Size_plainChar (plain c mem), ?_⟩
    · exact isAscii_of_all (by decide)
    · simp [IsAscii]

/-! ## Values read back -/

theorem evaluate_literal {value value' : ConstValue} {expr : SyntaxExprOutput} {s s' t : Evaluator}
    {printed printed' : String} (literal : IsLiteral value expr)
    (allowed : constGenericArgumentShapeIsAllowed generics.constants t expr = true)
    (run : (evaluateExpr generics.floats generics.constants (stepLimit + 1) expr
      fun _ => none).call s = (s', .ok value'))
    (prints : argumentText generics.texts parameter value = .ok printed)
    (prints' : argumentText generics.texts parameter value' = .ok printed') :
    printed' = printed := by
  have same : ∀ value'', value'' = value → argumentText generics.texts parameter value'' =
      .ok printed' → printed' = printed := by
    rintro _ rfl again
    rw [prints] at again
    exact (Except.ok.inj again).symm
  obtain ⟨s₁, _, _, run⟩ := call_bind_ok_iff.mp run
  unfold evaluateForm at run
  rcases argumentText_cases prints with ⟨n, _, rfl, _⟩ | ⟨b, _, rfl, _⟩ | ⟨name, atom, rfl, _⟩
  · simp only [IsLiteral] at literal
    split at literal
    next nonneg =>
      rw [literal.1] at run
      simp only [intLiteral, literal.2, call_lift, Prod.mk.injEq] at run
      exact same value' (Except.ok.inj run.2).symm prints'
    next negative =>
      obtain ⟨head, children, letGuards, fields, clauses, catchClauses, tryAfter, htmlExprs⟩ := expr
      have kind : head.kind = .unaryOp := literal
      unfold constGenericArgumentShapeIsAllowed at allowed
      simp only [kind] at allowed
      cases allowed
  · rw [literal.1, literal.2] at run
    cases b with
    | true | false =>
      cases run
      exact same _ rfl prints'
  · rw [literal.1] at run
    simp only [atomLiteral, literal.2, call_lift, Prod.mk.injEq] at run
    split at run
    next =>
      obtain rfl := Except.ok.inj run.2
      simp [argumentText, atom] at prints'
    next =>
      obtain rfl := Except.ok.inj run.2
      simp [argumentText, atom] at prints'
    next _ _ named =>
      obtain rfl := Except.ok.inj run.2
      obtain rfl := Option.some.inj named
      exact same _ rfl prints'
    next missing => cases missing

/-- Resolving a value gives the value, if it gives one. -/
theorem Resolves.idem {arg value again : TypeText}
    (lawful : generics.Lawful) (h : Resolves generics parameter arg value)
    (h' : Resolves generics parameter value again) : again = value := by
  rcases h.cases with ⟨rfl, scope⟩ | ⟨_, expr, s, s', result, printed, parsed, _, run, prints, rfl⟩
  · have same := trimText_of_trimmed (trimmed_trimText arg)
    rcases h'.cases with ⟨rfl, _⟩ | ⟨unscoped, _⟩
    · exact same
    · rw [same, scope] at unscoped
      cases unscoped
  · have words := fun name (h : result = .atom name) => lawful.words _ expr s s' name parsed (h ▸ run)
    have same := trimText_of_trimmed (isValueText lawful words prints).isArg.trimmed
    rcases h'.cases with ⟨rfl, _⟩ | ⟨_, expr', t, t', result', printed', parsed', allowed, run', prints', rfl⟩
    · exact same
    · rw [same, String.ofList_toList] at parsed'
      have literal := lawful.parse_text parameter result printed expr' words prints parsed'
      rw [evaluate_literal literal allowed run' prints prints']

theorem Resolves.isArg {arg value : TypeText}
    (lawful : generics.Lawful) (h : Resolves generics parameter arg value) (isArg : IsArg arg) :
    IsArg value := by
  rcases h.cases with ⟨rfl, _⟩ | ⟨_, expr, s, s', result, printed, parsed, _, run, prints, rfl⟩
  · rw [trimText_of_trimmed isArg.trimmed]
    exact isArg
  · exact (isValueText lawful (fun name h => lawful.words _ expr s s' name parsed (h ▸ run))
      prints).isArg

theorem Resolves.isAscii {arg value : TypeText}
    (lawful : generics.Lawful) (h : Resolves generics parameter arg value) (isArg : IsArg arg)
    (ascii : IsAscii arg) : IsAscii value := by
  rcases h.cases with ⟨rfl, _⟩ | ⟨_, expr, s, s', result, printed, parsed, _, run, prints, rfl⟩
  · rw [trimText_of_trimmed isArg.trimmed]
    exact ascii
  · exact (isValueText lawful (fun name h => lawful.words _ expr s s' name parsed (h ▸ run))
      prints).isAscii

end resolve

/-! ## What a run computes -/

section once

variable (generics : ConstGenerics)

mutual

/-- The text with its first bracket rewritten, and the first bracket of each argument inside. -/
inductive FirstRewritten : TypeText → TypeText → Prop
  | unbracketed {text : TypeText} (plain : '[' ∉ text) : FirstRewritten text text
  | bracketed {before inner after : TypeText} {parameters : List (Option ConstGenericParam)}
      {args : List TypeText} (first : '[' ∉ before) (nested : Nested bracketMark inner)
      (owner : parametersOf generics.specs (ownerName before) (splitTopLevelConstArgs inner) =
        .ok parameters)
      (each : FirstRewrittenArgs parameters (splitTopLevelConstArgs inner) args) :
      FirstRewritten (group before inner after) (group before (joinArgs args) after)

inductive FirstRewrittenArgs :
    List (Option ConstGenericParam) → List TypeText → List TypeText → Prop
  | nil : FirstRewrittenArgs [] [] []
  | const {parameter : ConstGenericParam} {parameters : List (Option ConstGenericParam)}
      {arg value : TypeText} {args values : List TypeText}
      (head : Resolves generics parameter arg value)
      (tail : FirstRewrittenArgs parameters args values) :
      FirstRewrittenArgs (some parameter :: parameters) (arg :: args) (value :: values)
  | type {parameters : List (Option ConstGenericParam)} {arg value : TypeText}
      {args values : List TypeText} (head : FirstRewritten arg value)
      (tail : FirstRewrittenArgs parameters args values) :
      FirstRewrittenArgs (none :: parameters) (arg :: args) (value :: values)

end

variable {generics}

variable {parameters : List (Option ConstGenericParam)}

theorem parametersOf_length {specs : String → Option (List (Option ConstGenericParam))}
    {owner : String} {args : List TypeText}
    (h : parametersOf specs owner args = .ok parameters) : parameters.length = args.length := by
  unfold parametersOf at h
  split at h
  · split at h
    · cases h
    next same =>
      cases h
      exact not_not.mp same
  · cases h
    exact length_map _

theorem parametersOf_congr {specs : String → Option (List (Option ConstGenericParam))}
    {owner : String} {args args' : List TypeText} (same : args'.length = args.length) :
    parametersOf specs owner args' = parametersOf specs owner args := by
  unfold parametersOf
  rw [same, map_const', map_const', same]

theorem FirstRewrittenArgs.length
    {args values : List TypeText} (h : FirstRewrittenArgs generics parameters args values) :
    values.length = args.length := by
  induction parameters generalizing args values with
  | nil =>
    cases h
    rfl
  | cons parameter parameters ih =>
    cases h with
    | const head tail | type head tail => simp [ih tail]

mutual

/-- Rewriting keeps the nesting of a text, what it is a piece of, and its ends. -/
theorem FirstRewritten.keeps (lawful : generics.Lawful) {text result : TypeText} :
    FirstRewritten generics text result →
    (∀ stop pending, scan bracketMark stop pending result = scan bracketMark stop pending text) ∧
      (Trimmed text → Trimmed result)
  | .unbracketed _ => ⟨fun _ _ => rfl, id⟩
  | .bracketed _ nested _ each =>
    have values := each.isArg lawful fun _ mem => isArg_of_split nested mem
    ⟨fun _ _ => scan_group nested (nested_joinArgs values), trimmed_group⟩

theorem FirstRewrittenArgs.isArg (lawful : generics.Lawful)
    {parameters : List (Option ConstGenericParam)} {args values : List TypeText} :
    FirstRewrittenArgs generics parameters args values →
    (∀ arg ∈ args, IsArg arg) → ∀ value ∈ values, IsArg value
  | .nil => id
  | .const head tail => fun each =>
    have parts := forall_mem_cons.mp each
    forall_mem_cons.mpr ⟨head.isArg lawful parts.1, tail.isArg lawful parts.2⟩
  | .type head tail => fun each =>
    have parts := forall_mem_cons.mp each
    have keeps := head.keeps lawful
    forall_mem_cons.mpr
      ⟨⟨(keeps.1 isComma []).trans parts.1.piece, keeps.2 parts.1.trimmed⟩, tail.isArg lawful parts.2⟩

end

theorem FirstRewritten.nested (lawful : generics.Lawful) {text result : TypeText}
    (h : FirstRewritten generics text result) (nested : Nested bracketMark text) :
    Nested bracketMark result :=
  ((h.keeps lawful).1 _ _).trans nested

/-- A group is rewritten as a group. -/
theorem FirstRewritten.of_group {before inner after result : TypeText}
    (h : FirstRewritten generics (group before inner after) result) (first : '[' ∉ before)
    (nested : Nested bracketMark inner) :
    ∃ parameters args, parametersOf generics.specs (ownerName before)
        (splitTopLevelConstArgs inner) = .ok parameters ∧
      FirstRewrittenArgs generics parameters (splitTopLevelConstArgs inner) args ∧
      result = group before (joinArgs args) after := by
  have cut : firstGroup (group before inner after) = some (before, inner, after) :=
    firstGroup_group first nested
  generalize eq : group before inner after = text at h cut
  cases h with
  | unbracketed plain =>
    rw [firstGroup_plain plain] at cut
    cases cut
  | bracketed first' nested' owner each =>
    rw [firstGroup_group first' nested'] at cut
    cases cut
    exact ⟨_, _, owner, each, rfl⟩

/-- The arguments of a rewritten group are the rewritten arguments. An argument that is empty
and alone is none when it is cut again. -/
theorem FirstRewrittenArgs.split (lawful : generics.Lawful) {args values : List TypeText}
    (h : FirstRewrittenArgs generics parameters args values) (each : ∀ arg ∈ args, IsArg arg) :
    splitTopLevelConstArgs (joinArgs values) = values ∨
      splitTopLevelConstArgs (joinArgs values) = [] ∧ values = [[]] := by
  by_cases blank : values = [[]]
  · subst blank
    exact .inr ⟨rfl, rfl⟩
  · exact .inl (splitTopLevelConstArgs_joinArgs (h.isArg lawful each) blank)

mutual

/-- Rewriting twice is rewriting once. -/
theorem FirstRewritten.idem (lawful : generics.Lawful) {text result again : TypeText} :
    FirstRewritten generics text result → FirstRewritten generics result again → again = result
  | .unbracketed plain => fun h' => by
    cases h' with
    | unbracketed => rfl
    | bracketed => exact absurd mem_group plain
  | @FirstRewritten.bracketed _ _ inner _ _ _ first nested owner each => fun h' => by
    have args : ∀ arg ∈ splitTopLevelConstArgs inner, IsArg arg := fun _ => isArg_of_split nested
    have values := each.isArg lawful args
    obtain ⟨parameters', values', owner', each', rfl⟩ :=
      h'.of_group first (nested_joinArgs values)
    rcases each.split lawful args with same | ⟨none, blank⟩
    · rw [same] at owner' each'
      rw [parametersOf_congr each.length, owner] at owner'
      cases owner'
      rw [each.idem lawful args each']
    · rw [none] at each'
      have : values' = [] := length_eq_zero_iff.mp each'.length
      rw [this, blank]
      rfl

theorem FirstRewrittenArgs.idem (lawful : generics.Lawful)
    {parameters : List (Option ConstGenericParam)} {args values again : List TypeText} :
    FirstRewrittenArgs generics parameters args values → (∀ arg ∈ args, IsArg arg) →
    FirstRewrittenArgs generics parameters values again → again = values
  | .nil => fun _ h' => by
    cases h'
    rfl
  | .const head tail => fun each h' => by
    cases h' with
    | const head' tail' =>
      rw [head.idem lawful head', tail.idem lawful (forall_mem_cons.mp each).2 tail']
  | .type head tail => fun each h' => by
    cases h' with
    | type head' tail' =>
      rw [head.idem lawful head', tail.idem lawful (forall_mem_cons.mp each).2 tail']

end

end once

/-! ## Runs -/

section runs

variable {generics : ConstGenerics} {rewrite rewrite' : TypeText → Rewriting TypeText}

variable {s s' : Evaluator}

/-- The arguments of a successful run are rewritten, when runs on them rewrite. -/
theorem firstRewrittenArgs_of_run {parameters : List (Option ConstGenericParam)}
    {args values : List TypeText} (same : parameters.length = args.length)
    (each : ∀ arg ∈ args, ∀ s s' result, (rewrite arg).call s = (s', .ok result) →
      FirstRewritten generics arg result)
    (run : (rewriteArgs generics rewrite parameters args).call s = (s', .ok values)) :
    FirstRewrittenArgs generics parameters args values := by
  induction parameters generalizing args values s with
  | nil =>
    obtain rfl := length_eq_zero_iff.mp same.symm
    cases run
    exact .nil
  | cons parameter parameters ih =>
    cases args with
    | nil => cases same
    | cons arg args =>
      obtain ⟨first, others⟩ := forall_mem_cons.mp each
      have lengths := Nat.succ.inj same
      cases parameter with
      | some parameter =>
        obtain ⟨s₁, value, head, run⟩ := call_bind_ok_iff.mp run
        obtain ⟨s₂, rest, tail, run⟩ := call_bind_ok_iff.mp run
        cases run
        rw [call_mapError, Prod.mk.injEq] at head
        refine .const ⟨s, s₁, ?_⟩ (ih lengths others tail)
        rw [Prod.ext_iff]
        refine ⟨head.1, ?_⟩
        have ok := head.2
        cases result : (Method.call (resolveConstGenericArgument generics parameter arg) s).2 with
        | error e =>
          rw [result] at ok
          cases ok
        | ok text =>
          rw [result] at ok
          cases ok
          rfl
      | none =>
        obtain ⟨s₁, value, head, run⟩ := call_bind_ok_iff.mp run
        obtain ⟨s₂, rest, tail, run⟩ := call_bind_ok_iff.mp run
        cases run
        exact .type (first s s₁ value head) (ih lengths others tail)

/-- One pass: what it has rebuilt, and how it goes on. -/
theorem rewriteGroup_ok {before inner after result : TypeText}
    (run : (rewriteGroup generics rewrite before inner after).call s = (s', .ok result)) :
    ∃ parameters args rest s₁, parametersOf generics.specs (ownerName before)
        (splitTopLevelConstArgs inner) = .ok parameters ∧
      (rewriteArgs generics rewrite parameters (splitTopLevelConstArgs inner)).call s =
        (s₁, .ok args) ∧
      sliceFrom (min (byteLength before + 1 + byteLength inner)
        (byteLength (group before (joinArgs args) after))) (group before (joinArgs args) after) =
          some rest ∧
      (if '[' ∈ rest then (rewrite (group before (joinArgs args) after)).call s₁ = (s', .ok result)
        else result = group before (joinArgs args) after) := by
  obtain ⟨t, owner, named, run⟩ := call_bind_ok_iff.mp run
  obtain ⟨t', parameters, found, run⟩ := call_bind_ok_iff.mp run
  obtain ⟨s₁, args, each, run⟩ := call_bind_ok_iff.mp run
  obtain ⟨s₂, rest, sliced, run⟩ := call_bind_ok_iff.mp run
  rw [call_lift, Prod.mk.injEq] at named found sliced
  obtain ⟨rfl, named⟩ := named
  obtain ⟨rfl, found⟩ := found
  obtain ⟨rfl, sliced⟩ := sliced
  have panics : ∀ {α : Type} {o : Option α} {a : α}, orPanic o = .ok a → o = some a := by
    intro α o a h
    cases o with
    | none => cases h
    | some b => exact congrArg some (Except.ok.inj h)
  rw [← ownerOf_eq (panics named)] at found
  refine ⟨parameters, args, rest, s₁, found, each, panics sliced, ?_⟩
  rw [call_ite] at run
  split
  next again => rwa [if_pos again] at run
  next done =>
    rw [if_neg done] at run
    cases run
    rfl

/-- A run that succeeds has rewritten the text once. -/
theorem firstRewritten_of_run (lawful : generics.Lawful) {fuel : Nat} {text result : TypeText}
    (nested : Nested bracketMark text)
    (run : (rewriteConstGenericTypeText generics fuel text).call s = (s', .ok result)) :
    FirstRewritten generics text result := by
  induction fuel generalizing text s s' result with
  | zero => cases run
  | succ fuel ih =>
    by_cases bracketed : '[' ∈ text
    · obtain ⟨before, inner, after, rfl, first, isNested⟩ := exists_firstGroup nested bracketed
      unfold rewriteConstGenericTypeText at run
      simp only [firstGroup_group first isNested] at run
      obtain ⟨parameters, args, rest, s₁, found, each, _, goes⟩ := rewriteGroup_ok run
      have rewritten := firstRewrittenArgs_of_run (parametersOf_length found)
        (fun arg mem s s' result run => ih (isArg_of_split isNested mem).piece.nested run) each
      have once : FirstRewritten generics (group before inner after)
          (group before (joinArgs args) after) := .bracketed first isNested found rewritten
      split at goes
      · have again := ih (once.nested lawful nested) goes
        rw [once.idem lawful again]
        exact once
      · rw [goes]
        exact once
    · unfold rewriteConstGenericTypeText at run
      simp only [firstGroup_plain bracketed] at run
      cases run
      exact .unbracketed bracketed

end runs

/-! ## Fuel -/

section fuel

variable {α β : Type}

/-- More fuel changes only a run that was out of it. -/
def Approximates (m m' : Rewriting α) : Prop :=
  ∀ s, (m.call s).2 = .error .outOfFuel ∨ m'.call s = m.call s

/-- No run ends in one of these ways. -/
def Avoids (bad : Stop → Prop) (m : Rewriting α) : Prop :=
  ∀ s e, (m.call s).2 = .error e → ¬ bad e

/-- Every run ends, with a text or with a diagnostic. -/
abbrev Finishes (m : Rewriting α) : Prop := Avoids (fun e => e = .outOfFuel ∨ e = .panicked) m

theorem approximates_refl (m : Rewriting α) : Approximates m m := fun _ => .inr rfl

theorem approximates_bind {m m' : Rewriting α} {f f' : α → Rewriting β}
    (first : Approximates m m') (rest : ∀ a, Approximates (f a) (f' a)) :
    Approximates (m >>= f) (m' >>= f') := by
  intro s
  rw [call_bind, call_bind]
  rcases first s with out | same
  · rcases run : m.call s with ⟨s', e | a⟩
    · rw [run] at out
      obtain rfl := Except.error.inj out
      exact .inl rfl
    · rw [run] at out
      cases out
  · rw [same]
    rcases m.call s with ⟨s', e | a⟩
    · exact .inr rfl
    · exact rest a s'

theorem Finishes.of_approximates {m m' : Rewriting α} (finishes : Finishes m)
    (approximates : Approximates m m') : Finishes m' := by
  intro s
  rcases approximates s with out | same
  · exact absurd (.inl rfl) (finishes s _ out)
  · rw [same]
    exact finishes s

variable {bad : Stop → Prop}

theorem avoids_pure (a : α) : Avoids bad (pure a : Rewriting α) := nofun

theorem avoids_bind {m : Rewriting α} {f : α → Rewriting β}
    (first : Avoids bad m) (rest : ∀ s s' a, m.call s = (s', .ok a) → Avoids bad (f a)) :
    Avoids bad (m >>= f) := by
  intro s e
  rw [call_bind]
  rcases run : m.call s with ⟨s', e' | a⟩
  · intro same
    obtain rfl := Except.error.inj same
    exact first s e' (congrArg Prod.snd run)
  · exact rest s s' a run s' e

theorem finishes_orPanic {o : Option α} {a : α} (h : o = some a) :
    Finishes (liftM (orPanic o) : Rewriting α) := by
  subst h
  exact avoids_pure a

variable {generics : ConstGenerics} {rewrite rewrite' : TypeText → Rewriting TypeText}

theorem finishes_resolve (parameter : ConstGenericParam) (arg : TypeText) :
    Finishes ((resolveConstGenericArgument generics parameter arg).mapError .diagnosed) := by
  intro s e
  rw [call_mapError]
  cases (Method.call (resolveConstGenericArgument generics parameter arg) s).2 with
  | error d =>
    intro same
    obtain rfl := Except.error.inj same
    exact nofun
  | ok text => exact nofun

theorem finishes_parametersOf (owner : String) (args : List TypeText) :
    Finishes (liftM (parametersOf generics.specs owner args) :
      Rewriting (List (Option ConstGenericParam))) := by
  intro s e
  rw [call_lift]
  unfold parametersOf
  split
  · split
    · intro same
      obtain rfl := Except.error.inj same
      exact nofun
    · exact nofun
  · exact nofun

theorem approximates_rewriteArgs (each : ∀ arg, Approximates (rewrite arg) (rewrite' arg))
    (parameters : List (Option ConstGenericParam)) (args : List TypeText) :
    Approximates (rewriteArgs generics rewrite parameters args)
      (rewriteArgs generics rewrite' parameters args) := by
  induction parameters generalizing args with
  | nil => exact approximates_refl _
  | cons parameter parameters ih =>
    cases args with
    | nil => cases parameter <;> exact approximates_refl _
    | cons arg args =>
      cases parameter with
      | some parameter =>
        refine approximates_bind (approximates_refl _) fun value => ?_
        exact approximates_bind (ih args) fun _ => approximates_refl _
      | none =>
        refine approximates_bind (each arg) fun value => ?_
        exact approximates_bind (ih args) fun _ => approximates_refl _

theorem approximates_rewriteGroup (each : ∀ text, Approximates (rewrite text) (rewrite' text))
    (before inner after : TypeText) :
    Approximates (rewriteGroup generics rewrite before inner after)
      (rewriteGroup generics rewrite' before inner after) := by
  refine approximates_bind (approximates_refl _) fun owner => ?_
  refine approximates_bind (approximates_refl _) fun parameters => ?_
  refine approximates_bind (approximates_rewriteArgs each _ _) fun args => ?_
  refine approximates_bind (approximates_refl _) fun rest => ?_
  split
  · exact each _
  · exact approximates_refl _

theorem approximates_succ (fuel : Nat) (text : TypeText) :
    Approximates (rewriteConstGenericTypeText generics fuel text)
      (rewriteConstGenericTypeText generics (fuel + 1) text) := by
  induction fuel generalizing text with
  | zero => exact fun _ => .inl rfl
  | succ fuel ih =>
    rw [rewriteConstGenericTypeText, rewriteConstGenericTypeText]
    cases firstGroup text with
    | none => exact approximates_refl _
    | some parts => exact approximates_rewriteGroup ih _ _ _

/-- A run that ends with some fuel ends with more. -/
theorem Finishes.mono {fuel fuel' : Nat} {text : TypeText}
    (finishes : Finishes (rewriteConstGenericTypeText generics fuel text)) (le : fuel ≤ fuel') :
    Finishes (rewriteConstGenericTypeText generics fuel' text) := by
  induction le with
  | refl => exact finishes
  | step _ ih => exact ih.of_approximates (approximates_succ _ _)

variable {parameters : List (Option ConstGenericParam)}

theorem avoids_rewriteArgs {args : List TypeText}
    (resolves : ∀ parameter, some parameter ∈ parameters → ∀ arg,
      Avoids bad ((resolveConstGenericArgument generics parameter arg).mapError .diagnosed))
    (each : ∀ arg ∈ args, Avoids bad (rewrite arg)) :
    Avoids bad (rewriteArgs generics rewrite parameters args) := by
  induction parameters generalizing args with
  | nil => exact avoids_pure _
  | cons parameter parameters ih =>
    have tail := fun other (mem : some other ∈ parameters) =>
      resolves other (mem_cons_of_mem _ mem)
    cases args with
    | nil => cases parameter <;> exact avoids_pure _
    | cons arg args =>
      obtain ⟨first, others⟩ := forall_mem_cons.mp each
      cases parameter with
      | some parameter =>
        refine avoids_bind (resolves parameter mem_cons_self arg) fun _ _ value _ => ?_
        exact avoids_bind (ih tail others) fun _ _ _ _ => avoids_pure _
      | none =>
        refine avoids_bind first fun _ _ value _ => ?_
        exact avoids_bind (ih tail others) fun _ _ _ _ => avoids_pure _

theorem finishes_rewriteArgs {args : List TypeText} (each : ∀ arg ∈ args, Finishes (rewrite arg)) :
    Finishes (rewriteArgs generics rewrite parameters args) :=
  avoids_rewriteArgs (fun parameter _ arg => finishes_resolve parameter arg) each

/-- Values need to be rewritten again only where they are types. -/
theorem FirstRewrittenArgs.finishes
    {args values : List TypeText} (h : FirstRewrittenArgs generics parameters args values)
    (each : ∀ arg ∈ args, ∀ value, FirstRewritten generics arg value → Finishes (rewrite value)) :
    Finishes (rewriteArgs generics rewrite parameters values) := by
  induction parameters generalizing args values with
  | nil => exact avoids_pure _
  | cons parameter parameters ih =>
    cases h with
    | const head tail =>
      refine avoids_bind (finishes_resolve _ _) fun _ _ value _ => ?_
      exact avoids_bind (ih tail (forall_mem_cons.mp each).2)
        fun _ _ _ _ => avoids_pure _
    | type head tail =>
      obtain ⟨first, others⟩ := forall_mem_cons.mp each
      refine avoids_bind (first _ head) fun _ _ value _ => ?_
      exact avoids_bind (ih tail others) fun _ _ _ _ => avoids_pure _

theorem finishes_rewriteGroup {before inner after : TypeText} (ascii : IsAscii before)
    (each : ∀ parameters, parametersOf generics.specs (ownerName before)
        (splitTopLevelConstArgs inner) = .ok parameters →
      Finishes (rewriteArgs generics rewrite parameters (splitTopLevelConstArgs inner)))
    (goes : ∀ parameters args s s', parametersOf generics.specs (ownerName before)
        (splitTopLevelConstArgs inner) = .ok parameters →
      (rewriteArgs generics rewrite parameters (splitTopLevelConstArgs inner)).call s =
        (s', .ok args) → ∃ rest, sliceFrom (min (byteLength before + 1 + byteLength inner)
          (byteLength (group before (joinArgs args) after))) (group before (joinArgs args) after) =
            some rest ∧ ('[' ∈ rest → Finishes (rewrite (group before (joinArgs args) after)))) :
    Finishes (rewriteGroup generics rewrite before inner after) := by
  have owner := ownerOf_ascii ascii
  refine avoids_bind (finishes_orPanic owner) fun s s' name named => ?_
  have same : name = ownerName before := by
    rw [owner] at named
    cases named
    rfl
  subst same
  refine avoids_bind (finishes_parametersOf _ _) fun s s' parameters found => ?_
  rw [call_lift, Prod.mk.injEq] at found
  refine avoids_bind (each parameters found.2) fun s s' args run => ?_
  obtain ⟨rest, sliced, again⟩ := goes parameters args s s' found.2 run
  refine avoids_bind (finishes_orPanic sliced) fun s s' rest' same => ?_
  have same : rest' = rest := by
    rw [sliced] at same
    cases same
    rfl
  subst same
  split
  next bracketed => exact again bracketed
  next => exact avoids_pure _

end fuel

/-! ## Rewriting every argument -/

section replaced

variable {generics : ConstGenerics}

/-- An argument with the blanks around it. -/
structure Padded where
  left : TypeText
  arg : TypeText
  right : TypeText

def Padded.text (pad : Padded) : TypeText := pad.left ++ (pad.arg ++ pad.right)

variable (generics)

mutual

/-- The text with every constant argument in it, in all its brackets, exchanged for its value,
and no other character changed. -/
inductive ConstArgumentsReplaced : TypeText → TypeText → Prop
  | unbracketed {text : TypeText} (plain : '[' ∉ text) : ConstArgumentsReplaced text text
  | bracketed {before inner after after' : TypeText} {pads pads' : List Padded}
      {parameters : List (Option ConstGenericParam)} (first : '[' ∉ before)
      (nested : Nested bracketMark inner)
      (blank : ∀ pad ∈ pads, IsBlank pad.left ∧ IsBlank pad.right)
      (cut : inner = [','].intercalate (pads.map Padded.text))
      (args : pads.map Padded.arg = splitTopLevelConstArgs inner)
      (owner : parametersOf generics.specs (ownerName before) (splitTopLevelConstArgs inner) =
        .ok parameters)
      (each : PadsReplaced parameters pads pads') (rest : ConstArgumentsReplaced after after') :
      ConstArgumentsReplaced (group before inner after)
        (group before ([','].intercalate (pads'.map Padded.text)) after')

inductive PadsReplaced : List (Option ConstGenericParam) → List Padded → List Padded → Prop
  | nil : PadsReplaced [] [] []
  | const {parameter : ConstGenericParam} {parameters : List (Option ConstGenericParam)}
      {left arg right value : TypeText} {pads pads' : List Padded}
      (head : Resolves generics parameter arg value) (tail : PadsReplaced parameters pads pads') :
      PadsReplaced (some parameter :: parameters) (⟨left, arg, right⟩ :: pads)
        (⟨left, value, right⟩ :: pads')
  | type {parameters : List (Option ConstGenericParam)} {left arg right value : TypeText}
      {pads pads' : List Padded} (head : ConstArgumentsReplaced arg value)
      (tail : PadsReplaced parameters pads pads') :
      PadsReplaced (none :: parameters) (⟨left, arg, right⟩ :: pads)
        (⟨left, value, right⟩ :: pads')

end

variable {generics}

/-- How a run ends that does what it should. -/
def Correct (generics : ConstGenerics) (text : TypeText) : Except Stop TypeText → Prop
  | .ok result => ConstArgumentsReplaced generics text result
  | .error (.diagnosed _) => True
  | .error _ => False

/-- From every state of the evaluator the rewriting of the text ends, with every constant
argument replaced or with a diagnostic. -/
def RewritesAll (generics : ConstGenerics) (text : TypeText) : Prop :=
  ∀ s, ∃ fuel, Correct generics text
    ((rewriteConstGenericTypeText generics fuel text).call s).2

/-- Every argument has at most one bracket that is not inside another, with nothing bracketed
after it, and arguments are separated by a comma and one blank. -/
inductive SingleGroups : TypeText → Prop
  | unbracketed {text : TypeText} (plain : '[' ∉ text) : SingleGroups text
  | bracketed {before inner after : TypeText} (first : '[' ∉ before)
      (nested : Nested bracketMark inner) (spaced : joinArgs (splitTopLevelConstArgs inner) = inner)
      (each : ∀ arg ∈ splitTopLevelConstArgs inner, SingleGroups arg) (last : '[' ∉ after) :
      SingleGroups (group before inner after)

theorem SingleGroups.of_group {before inner after : TypeText}
    (single : SingleGroups (group before inner after)) (first : '[' ∉ before)
    (nested : Nested bracketMark inner) : joinArgs (splitTopLevelConstArgs inner) = inner ∧
      (∀ arg ∈ splitTopLevelConstArgs inner, SingleGroups arg) ∧ '[' ∉ after := by
  have cut : firstGroup (group before inner after) = some (before, inner, after) :=
    firstGroup_group first nested
  generalize eq : group before inner after = text at single cut
  cases single with
  | unbracketed plain =>
    rw [firstGroup_plain plain] at cut
    cases cut
  | bracketed first' nested' spaced each last =>
    rw [firstGroup_group first' nested'] at cut
    cases cut
    exact ⟨spaced, each, last⟩

/-! ## Where it does what it should -/

theorem exists_fuel {P : TypeText → Nat → Prop} {texts : List TypeText}
    (each : ∀ text ∈ texts, ∃ fuel, P text fuel)
    (mono : ∀ text fuel fuel', P text fuel → fuel ≤ fuel' → P text fuel') :
    ∃ fuel, ∀ text ∈ texts, P text fuel := by
  induction texts with
  | nil => exact ⟨0, by simp⟩
  | cons text texts ih =>
    obtain ⟨first, others⟩ := forall_mem_cons.mp each
    obtain ⟨fuel, head⟩ := first
    obtain ⟨fuel', tail⟩ := ih others
    refine ⟨max fuel fuel', forall_mem_cons.mpr ⟨?_, fun other mem => ?_⟩⟩
    · exact mono _ _ _ head (Nat.le_max_left _ _)
    · exact mono _ _ _ (tail other mem) (Nat.le_max_right _ _)

mutual

theorem FirstRewritten.isAscii (lawful : generics.Lawful) {text result : TypeText} :
    FirstRewritten generics text result → IsAscii text → IsAscii result
  | .unbracketed _ => id
  | .bracketed _ nested _ each => fun ascii =>
    have parts := isAscii_group.mp ascii
    have values := each.isAscii lawful fun _ mem =>
      ⟨isArg_of_split nested mem, isAscii_of_split parts.2.1 nested mem⟩
    isAscii_group.mpr ⟨parts.1, isAscii_joinArgs values, parts.2.2⟩

theorem FirstRewrittenArgs.isAscii (lawful : generics.Lawful)
    {parameters : List (Option ConstGenericParam)} {args values : List TypeText} :
    FirstRewrittenArgs generics parameters args values →
    (∀ arg ∈ args, IsArg arg ∧ IsAscii arg) → ∀ value ∈ values, IsAscii value
  | .nil => fun _ => forall_mem_nil _
  | .const head tail => fun each =>
    have parts := forall_mem_cons.mp each
    forall_mem_cons.mpr
      ⟨head.isAscii lawful parts.1.1 parts.1.2, tail.isAscii lawful parts.2⟩
  | .type head tail => fun each =>
    have parts := forall_mem_cons.mp each
    forall_mem_cons.mpr
      ⟨head.isAscii lawful parts.1.2, tail.isAscii lawful parts.2⟩

end

/-- A rewritten text with nothing bracketed after its bracket is rewritten again in one pass. -/
theorem finishes_again (lawful : generics.Lawful) {before inner after : TypeText}
    {parameters : List (Option ConstGenericParam)} {values : List TypeText} {fuel : Nat}
    (ascii : IsAscii before) (first : '[' ∉ before) (nested : Nested bracketMark inner)
    (last : '[' ∉ after)
    (owner : parametersOf generics.specs (ownerName before) (splitTopLevelConstArgs inner) =
      .ok parameters)
    (rewritten : FirstRewrittenArgs generics parameters (splitTopLevelConstArgs inner) values)
    (each : ∀ arg ∈ splitTopLevelConstArgs inner, ∀ value, FirstRewritten generics arg value →
      Finishes (rewriteConstGenericTypeText generics fuel value)) :
    Finishes (rewriteConstGenericTypeText generics (fuel + 1)
      (group before (joinArgs values) after)) := by
  have args : ∀ arg ∈ splitTopLevelConstArgs inner, IsArg arg := fun _ => isArg_of_split nested
  have nested' := nested_joinArgs (rewritten.isArg lawful args)
  have once : FirstRewritten generics (group before inner after)
      (group before (joinArgs values) after) := .bracketed first nested owner rewritten
  rw [rewriteConstGenericTypeText, firstGroup_group first nested']
  have cut := rewritten.split lawful args
  refine finishes_rewriteGroup ascii (fun parameters' found => ?_)
    fun parameters' again s s' found run => ?_
  · rcases cut with same | ⟨none, _⟩
    · rw [same] at found ⊢
      rw [parametersOf_congr rewritten.length, owner] at found
      cases found
      exact rewritten.finishes each
    · rw [none]
      exact finishes_rewriteArgs (by simp)
  · have rewritten' := firstRewrittenArgs_of_run (parametersOf_length found)
      (fun arg mem s s' result run =>
        firstRewritten_of_run lawful (isArg_of_split nested' mem).piece.nested run) run
    have twice : FirstRewritten generics (group before (joinArgs values) after)
        (group before (joinArgs again) after) := .bracketed first nested' found rewritten'
    rw [once.idem lawful twice]
    refine ⟨_, sliceFrom_group _ _ _, fun bracketed => ?_⟩
    rcases mem_cons.mp bracketed with h | h
    · exact absurd h (by decide)
    · exact absurd h last

/-- Such a text is rewritten in at most two passes at every level, whatever the first yields. -/
theorem SingleGroups.finishes (lawful : generics.Lawful) {text : TypeText}
    (single : SingleGroups text) (ascii : IsAscii text) :
    ∃ fuel, Finishes (rewriteConstGenericTypeText generics fuel text) ∧
      ∀ result, FirstRewritten generics text result →
        Finishes (rewriteConstGenericTypeText generics fuel result) := by
  induction single with
  | @unbracketed text plain =>
    have now : Finishes (rewriteConstGenericTypeText generics 1 text) := by
      rw [rewriteConstGenericTypeText, firstGroup_plain plain]
      exact avoids_pure _
    refine ⟨1, now, fun result rewritten => ?_⟩
    cases rewritten with
    | unbracketed => exact now
    | bracketed => exact absurd mem_group plain
  | @bracketed before inner after first nested spaced _ last ih =>
    obtain ⟨isBefore, isInner, isAfter⟩ := isAscii_group.mp ascii
    have argsAscii : ∀ arg ∈ splitTopLevelConstArgs inner, IsAscii arg := fun _ =>
      isAscii_of_split isInner nested
    obtain ⟨fuel, each⟩ := exists_fuel (fun arg mem => ih arg mem (argsAscii arg mem))
      fun _ _ _ h le => ⟨h.1.mono le, fun result once => (h.2 result once).mono le⟩
    have again : ∀ parameters values, parametersOf generics.specs (ownerName before)
        (splitTopLevelConstArgs inner) = .ok parameters →
        FirstRewrittenArgs generics parameters (splitTopLevelConstArgs inner) values →
        Finishes (rewriteConstGenericTypeText generics (fuel + 1)
          (group before (joinArgs values) after)) := fun parameters values owner rewritten =>
      finishes_again lawful isBefore first nested last owner rewritten
        fun arg mem => (each arg mem).2
    refine ⟨fuel + 2, ?_, fun result rewritten => ?_⟩
    · rw [rewriteConstGenericTypeText, firstGroup_group first nested]
      refine finishes_rewriteGroup isBefore (fun parameters found => finishes_rewriteArgs
        fun arg mem => (each arg mem).1.mono (Nat.le_succ _)) fun parameters values s s' found run => ?_
      have rewritten := firstRewrittenArgs_of_run (parametersOf_length found)
        (fun arg mem s s' result run =>
          firstRewritten_of_run lawful (isArg_of_split nested mem).piece.nested run) run
      have valuesAscii := rewritten.isAscii lawful fun arg mem =>
        ⟨isArg_of_split nested mem, argsAscii arg mem⟩
      have rebuilt := isAscii_group.mpr ⟨isBefore, isAscii_joinArgs valuesAscii, isAfter⟩
      obtain ⟨rest, sliced⟩ := exists_sliceFrom rebuilt (Nat.min_le_right _ _)
      exact ⟨rest, sliced, fun _ => again parameters values found rewritten⟩
    · obtain ⟨parameters, values, owner, values', rfl⟩ := rewritten.of_group first nested
      exact (again parameters values owner values').mono (Nat.le_succ _)

/-- The arguments with the spacing that they are joined with. -/
def padArgs : TypeText → List TypeText → List Padded
  | _, [] => []
  | left, arg :: args => ⟨left, arg, []⟩ :: padArgs [' '] args

theorem padArgs_arg (left : TypeText) (args : List TypeText) :
    (padArgs left args).map Padded.arg = args := by
  induction args generalizing left with
  | nil => rfl
  | cons arg args ih => rw [padArgs, map_cons, ih]

theorem intercalate_padArgs (left arg : TypeText) (args : List TypeText) :
    [','].intercalate ((padArgs left (arg :: args)).map Padded.text) =
      left ++ joinArgs (arg :: args) := by
  induction args generalizing left arg with
  | nil => simp [padArgs, Padded.text, joinArgs]
  | cons next args ih =>
    have eq : joinArgs (arg :: next :: args) = arg ++ ',' :: ' ' :: joinArgs (next :: args) := by
      simp [joinArgs]
    have step : [','].intercalate ((padArgs left (arg :: next :: args)).map Padded.text) =
        (left ++ arg) ++ ',' ::
          [','].intercalate ((padArgs [' '] (next :: args)).map Padded.text) := by
      simp [padArgs, Padded.text]
    rw [step, ih, eq]
    simp

theorem joinArgs_eq_intercalate (args : List TypeText) :
    [','].intercalate ((padArgs [] args).map Padded.text) = joinArgs args := by
  cases args with
  | nil => rfl
  | cons arg args => exact intercalate_padArgs [] arg args

theorem padArgs_blank {left : TypeText} {args : List TypeText} (blank : IsBlank left) :
    ∀ pad ∈ padArgs left args, IsBlank pad.left ∧ IsBlank pad.right := by
  induction args generalizing left with
  | nil => simp [padArgs]
  | cons arg args ih =>
    refine forall_mem_cons.mpr ⟨⟨blank, by simp [IsBlank]⟩, ih ?_⟩
    exact all_eq_true.mp (by decide)

mutual

/-- Where a text has one bracket in every argument, its first brackets are all. -/
theorem FirstRewritten.replaced {text result : TypeText} :
    FirstRewritten generics text result → SingleGroups text →
    ConstArgumentsReplaced generics text result
  | .unbracketed plain => fun _ => .unbracketed plain
  | @FirstRewritten.bracketed _ before inner after parameters values first nested owner each =>
    fun single => by
      obtain ⟨spaced, parts, last⟩ := single.of_group first nested
      have cut : inner = [','].intercalate
          ((padArgs [] (splitTopLevelConstArgs inner)).map Padded.text) := by
        rw [joinArgs_eq_intercalate, spaced]
      rw [← joinArgs_eq_intercalate values]
      exact .bracketed first nested (padArgs_blank (by simp [IsBlank])) cut (padArgs_arg _ _) owner
        (each.replaced parts []) (.unbracketed last)

theorem FirstRewrittenArgs.replaced {parameters : List (Option ConstGenericParam)}
    {args values : List TypeText} : FirstRewrittenArgs generics parameters args values →
    (∀ arg ∈ args, SingleGroups arg) → ∀ left,
    PadsReplaced generics parameters (padArgs left args) (padArgs left values)
  | .nil => fun _ _ => .nil
  | .const head tail => fun each _ =>
    .const head (tail.replaced (forall_mem_cons.mp each).2 _)
  | .type head tail => fun each _ =>
    .type (head.replaced (forall_mem_cons.mp each).1)
      (tail.replaced (forall_mem_cons.mp each).2 _)

end

theorem rewritesAll_of_singleGroups (lawful : generics.Lawful) {text : TypeText}
    (nested : Nested bracketMark text) (single : SingleGroups text) (ascii : IsAscii text) :
    RewritesAll generics text := by
  obtain ⟨fuel, finishes, _⟩ := single.finishes lawful ascii
  intro s
  refine ⟨fuel, ?_⟩
  rcases run : (rewriteConstGenericTypeText generics fuel text).call s with ⟨s', e | result⟩
  · have ends := finishes s e (congrArg Prod.snd run)
    cases e with
    | outOfFuel => exact absurd (.inl rfl) ends
    | panicked => exact absurd (.inr rfl) ends
    | diagnosed d => trivial
  · exact (firstRewritten_of_run lawful nested run).replaced single

end replaced

/-! ## Where it does not -/

section empty

variable {generics : ConstGenerics}

/-- Without const-generic types nothing is diagnosed. -/
theorem not_diagnosed (none : ∀ owner, generics.specs owner = none) (fuel : Nat) (text : TypeText) :
    Avoids (fun e => ∃ d, e = .diagnosed d) (rewriteConstGenericTypeText generics fuel text) := by
  have undiagnosed : ∀ {α : Type} (o : Option α),
      Avoids (fun e => ∃ d, e = .diagnosed d) (liftM (orPanic o) : Rewriting α) := by
    intro α o s e same
    cases o with
    | none =>
      obtain rfl := Except.error.inj same
      exact nofun
    | some a => cases same
  induction fuel generalizing text with
  | zero =>
    intro s e same
    obtain rfl := Except.error.inj same
    exact nofun
  | succ fuel ih =>
    rw [rewriteConstGenericTypeText]
    cases firstGroup text with
    | none => exact avoids_pure _
    | some parts =>
      refine avoids_bind (undiagnosed _) fun _ _ owner _ => ?_
      have free : parametersOf generics.specs owner (splitTopLevelConstArgs parts.2.1) =
          .ok ((splitTopLevelConstArgs parts.2.1).map fun _ => Option.none) := by
        unfold parametersOf
        rw [none owner]
      simp only [free]
      refine avoids_bind (avoids_pure _) fun _ _ parameters found => ?_
      cases found
      refine avoids_bind (avoids_rewriteArgs ?_ fun arg _ => ih arg) fun _ _ args _ => ?_
      · intro parameter mem
        simp at mem
      refine avoids_bind (undiagnosed _) fun _ _ rest _ => ?_
      split
      · exact ih _
      · exact avoids_pure _

mutual

theorem ConstArgumentsReplaced.eq_of_empty (none : ∀ owner, generics.specs owner = none)
    {text result : TypeText} : ConstArgumentsReplaced generics text result → result = text
  | .unbracketed _ => rfl
  | @ConstArgumentsReplaced.bracketed _ _ inner _ _ _ _ parameters _ _ _ cut _ owner each rest => by
    have free : ∀ parameter ∈ parameters, parameter = Option.none := by
      unfold parametersOf at owner
      rw [none] at owner
      cases owner
      simp
    rw [each.eq_of_empty none free, ← cut, rest.eq_of_empty none]

theorem PadsReplaced.eq_of_empty (none : ∀ owner, generics.specs owner = none)
    {parameters : List (Option ConstGenericParam)} {pads pads' : List Padded} :
    PadsReplaced generics parameters pads pads' →
    (∀ parameter ∈ parameters, parameter = Option.none) → pads' = pads
  | .nil => fun _ => rfl
  | .const _ _ => fun free => nomatch (forall_mem_cons.mp free).1
  | .type head tail => fun free => by
    rw [head.eq_of_empty none, tail.eq_of_empty none (forall_mem_cons.mp free).2]

end

/-- Runs on arguments that all stay as they are. -/
theorem exists_run_of_rewriteArgs {rewrite : TypeText → Rewriting TypeText}
    {parameters : List (Option ConstGenericParam)} {args : List TypeText} {s s' : Evaluator}
    (free : ∀ parameter ∈ parameters, parameter = none) (same : parameters.length = args.length)
    (run : (rewriteArgs generics rewrite parameters args).call s = (s', .ok args)) :
    ∀ arg ∈ args, ∃ t t', (rewrite arg).call t = (t', .ok arg) := by
  induction parameters generalizing args s with
  | nil =>
    obtain rfl := length_eq_zero_iff.mp same.symm
    simp
  | cons parameter parameters ih =>
    cases args with
    | nil => simp
    | cons arg args =>
      obtain ⟨rfl, others⟩ := forall_mem_cons.mp free
      obtain ⟨s₁, value, head, run⟩ := call_bind_ok_iff.mp run
      obtain ⟨s₂, rest, tail, run⟩ := call_bind_ok_iff.mp run
      cases run
      exact forall_mem_cons.mpr ⟨⟨s, s₁, head⟩, ih others (Nat.succ.inj same) tail⟩

/-- Without const-generic types a text that is rewritten as itself has one bracket in every
argument. -/
theorem singleGroups_of_run (lawful : generics.Lawful)
    (none : ∀ owner, generics.specs owner = none) {fuel : Nat} {text : TypeText} {s s' : Evaluator}
    (nested : Nested bracketMark text)
    (run : (rewriteConstGenericTypeText generics fuel text).call s = (s', .ok text)) :
    SingleGroups text := by
  induction fuel generalizing text s s' with
  | zero => cases run
  | succ fuel ih =>
    by_cases bracketed : '[' ∈ text
    · obtain ⟨before, inner, after, rfl, first, isNested⟩ := exists_firstGroup nested bracketed
      rw [rewriteConstGenericTypeText, firstGroup_group first isNested] at run
      obtain ⟨parameters, args, rest, s₁, found, each, sliced, goes⟩ := rewriteGroup_ok run
      have pieces : ∀ arg ∈ splitTopLevelConstArgs inner, IsArg arg := fun _ =>
        isArg_of_split isNested
      have rewritten := firstRewrittenArgs_of_run (parametersOf_length found)
        (fun arg mem s s' result run =>
          firstRewritten_of_run lawful (pieces arg mem).piece.nested run) each
      have once : FirstRewritten generics (group before inner after)
          (group before (joinArgs args) after) := .bracketed first isNested found rewritten
      have whole : group before inner after = group before (joinArgs args) after := by
        split at goes
        · exact once.idem lawful (firstRewritten_of_run lawful (once.nested lawful nested) goes)
        · exact goes
      have joined : inner = joinArgs args := by simpa [group] using whole
      have same : splitTopLevelConstArgs inner = args := by
        rcases rewritten.split lawful pieces with same | ⟨empty, blank⟩
        · rw [joined, same]
        · have length := rewritten.length
          rw [joined, empty, blank] at length
          cases length
      rw [← whole] at sliced goes
      rw [sliceFrom_group] at sliced
      obtain rfl := Option.some.inj sliced
      split at goes
      next => exact ih nested goes
      next done =>
        refine .bracketed first isNested (by rw [same, ← joined]) (fun arg mem => ?_)
          fun mem => done (mem_cons_of_mem _ mem)
        have free : ∀ parameter ∈ parameters, parameter = Option.none := by
          unfold parametersOf at found
          rw [none] at found
          cases found
          simp
        have lengths := parametersOf_length found
        rw [same] at each lengths mem
        obtain ⟨t, t', ran⟩ := exists_run_of_rewriteArgs free lengths each arg mem
        exact ih (pieces arg (same ▸ mem)).piece.nested ran
    · exact .unbracketed bracketed

/-- No type is const-generic and nothing is in scope. -/
def noConstGenerics : ConstGenerics where
  specs := fun _ => none
  inScope := fun _ => none
  texts := { parse := fun _ => none, debug := fun name => "\"" ++ name ++ "\"" }
  floats := { parse := fun _ => none, format := fun _ => "" }
  constants := {
    definitions := fun _ => none
    functions := fun _ => none
    localFunctions := fun _ => false
    requireTotal := fun _ _ => .ok () }

theorem noConstGenerics_lawful : noConstGenerics.Lawful where
  debug_word := fun _ _ => rfl
  parse_text := nofun
  words := nofun

theorem singleGroups_of_rewritesAll (lawful : generics.Lawful)
    (none : ∀ owner, generics.specs owner = none) {text : TypeText}
    (nested : Nested bracketMark text) (all : RewritesAll generics text) : SingleGroups text := by
  obtain ⟨fuel, correct⟩ := all ⟨fun _ => .none, [], 0, []⟩
  rcases run : (rewriteConstGenericTypeText generics fuel text).call ⟨fun _ => .none, [], 0, []⟩
    with ⟨s', e | result⟩
  · rw [run] at correct
    cases e with
    | outOfFuel | panicked => exact absurd correct id
    | diagnosed d =>
      exact absurd ⟨d, rfl⟩ (not_diagnosed none fuel text _ _ (congrArg Prod.snd run))
  · rw [run] at correct
    rw [ConstArgumentsReplaced.eq_of_empty none correct] at run
    exact singleGroups_of_run lawful none nested run

end empty

/-! ## The condition -/

/-- A type `B` with one size, and a size `N` in scope. -/
def sizedGenerics : ConstGenerics :=
  { noConstGenerics with
    specs := fun owner => if owner = "B" then some [some ⟨"SIZE", "Int"⟩] else none
    inScope := fun name => if name = "N" then some "Int" else none }

theorem sizedGenerics_lawful : sizedGenerics.Lawful where
  debug_word := fun _ _ => rfl
  parse_text := nofun
  words := nofun

/-- A pass whose parts are known. -/
theorem rewriteGroup_call {generics : ConstGenerics} {rewrite : TypeText → Rewriting TypeText}
    {before inner after rest : TypeText} {owner : String}
    {parameters : List (Option ConstGenericParam)} {args : List TypeText} {s s' : Evaluator}
    (named : ownerOf before = some owner)
    (found : parametersOf generics.specs owner (splitTopLevelConstArgs inner) = .ok parameters)
    (each : (rewriteArgs generics rewrite parameters (splitTopLevelConstArgs inner)).call s =
      (s', .ok args))
    (sliced : sliceFrom (min (byteLength before + 1 + byteLength inner)
      (byteLength (group before (joinArgs args) after))) (group before (joinArgs args) after) =
        some rest) :
    (rewriteGroup generics rewrite before inner after).call s =
      if '[' ∈ rest then (rewrite (group before (joinArgs args) after)).call s'
      else (s', .ok (group before (joinArgs args) after)) := by
  rw [rewriteGroup, named, orPanic, call_check_bind]
  dsimp only
  rw [found, call_check_bind]
  dsimp only
  rw [call_bind, each]
  dsimp only
  rw [sliced, orPanic, call_check_bind]
  dsimp only
  rw [call_ite]
  rfl

def sideBySide : TypeText := "(List[Int]) -> List[Int]".toList

/-- A pass over two brackets side by side goes on with the text that it started with. -/
theorem sideBySide_again (fuel : Nat) (s : Evaluator) :
    (rewriteConstGenericTypeText noConstGenerics (fuel + 2) sideBySide).call s =
      (rewriteConstGenericTypeText noConstGenerics (fuel + 1) sideBySide).call s := by
  have cut : firstGroup sideBySide =
      some ("(List".toList, "Int".toList, ") -> List[Int]".toList) := by decide
  have args : splitTopLevelConstArgs "Int".toList = ["Int".toList] := by decide
  have rebuilt : group "(List".toList (joinArgs ["Int".toList]) ") -> List[Int]".toList =
      sideBySide := by decide
  have rest : sliceFrom (min (byteLength "(List".toList + 1 + byteLength "Int".toList)
      (byteLength sideBySide)) sideBySide = some "]) -> List[Int]".toList := by decide
  have plain : rewriteConstGenericTypeText noConstGenerics (fuel + 1) "Int".toList =
      pure "Int".toList := by
    rw [rewriteConstGenericTypeText, firstGroup_plain (by decide)]
  have each : (rewriteArgs noConstGenerics (rewriteConstGenericTypeText noConstGenerics (fuel + 1))
      [none] (splitTopLevelConstArgs "Int".toList)).call s = (s, .ok ["Int".toList]) := by
    rw [args, rewriteArgs, plain]
    rfl
  have found : parametersOf noConstGenerics.specs "List" (splitTopLevelConstArgs "Int".toList) =
      .ok [none] := by
    rw [args]
    rfl
  rw [← rebuilt] at rest
  have pass := rewriteGroup_call (by decide) found each rest
  rw [if_pos (by decide), rebuilt] at pass
  rw [rewriteConstGenericTypeText, cut]
  exact pass

end Terlan.ValueLifecycle
