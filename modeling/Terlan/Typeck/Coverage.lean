/-
  Coverage of a case by its clause patterns: subsumption of a type by a pattern, refinement of
  finite regions, and the verdict of the analysis. No alias table is modelled, so a constructor
  pattern names a tagged tuple or an atom and no alias.
-/
import Terlan.Typeck.Types

namespace Terlan.Typeck

open List

/-! ## Patterns -/

inductive SyntaxPatternKind where
  | wildcard
  | var
  | int
  | float
  | string
  | stringPattern
  | stringCapture
  | atom
  | tuple
  | alias
  | list
  | listCons
  | constructor
  | map
  | mapField
  | ignore
  | placeholder
  | record
  | binaryLayout
deriving DecidableEq

/-- `SyntaxPatternOutput`. Of a map field only the key is read by coverage. -/
structure SyntaxPatternOutput where
  kind : SyntaxPatternKind
  text : Option String
  children : List SyntaxPatternOutput
  fields : List String

theorem sizeOf_children (pattern : SyntaxPatternOutput) :
    sizeOf pattern.children < sizeOf pattern := by
  obtain ⟨kind, text, children, fields⟩ := pattern
  rw [SyntaxPatternOutput.mk.sizeOf_spec]
  show sizeOf children < _
  omega

variable {pattern child : SyntaxPatternOutput}

theorem sizeOf_child (h : child ∈ pattern.children) : sizeOf child < sizeOf pattern :=
  Nat.lt_trans (sizeOf_lt_of_mem h) (sizeOf_children pattern)

/-- One character of a snake-cased atom, after `previous` and before `next`; `out` is what is
written so far. -/
def atomPayloadChar (out : List Char) (previous : Option Char) (ch : Char) (next : Option Char) :
    List Char :=
  if ch.isUpper then
    let startsNewWord := previous.isSome &&
      (previous.any (fun prev => prev.isLower || prev.isDigit) || next.any Char.isLower)
    out ++ (if startsNewWord then ['_'] else []) ++ [ch.toLower]
  else if ch.isDigit then
    out ++ (if previous.any Char.isAlpha && out.getLast? != some '_' then ['_'] else []) ++ [ch]
  else
    out ++ [ch]

def atomPayloadChars (out : List Char) (previous : Option Char) : List Char → List Char
  | [] => out
  | ch :: chars =>
    atomPayloadChars (atomPayloadChar out previous ch chars.head?) (some ch) chars

def typeNameToAtomPayload (name : String) : String :=
  String.ofList (atomPayloadChars [] none name.toList)

/-- The atom of a constructor: the name behind the last dot, as an atom. -/
def constructorPatternAtomName (name : String) : String :=
  typeNameToAtomPayload (String.ofList (name.toList.reverse.takeWhile (· != '.')).reverse)

/-- A constructor pattern that stands for a constant; its child is the value. -/
def isConstPattern (pattern : SyntaxPatternOutput) : Bool :=
  pattern.kind = .constructor &&
    pattern.text.any fun name => "$const:".toList.isPrefixOf name.toList

/-! ## Subsumption -/

def isMapType : Ty → Bool
  | .named _ name _ => name = "Map" || name = "map"
  | .map _ => true
  | .dynamic => true
  | .term => true
  | _ => false

/-- Whether a pattern covers one variant of an expected union. -/
def syntaxPatternSubsumesVariant (pattern : SyntaxPatternOutput) (variant : Ty) : Bool :=
  if isConstPattern pattern then
    match _h : pattern.children with
    | child :: _ => syntaxPatternSubsumesVariant child variant
    | [] => false
  else
    match pattern.kind, variant with
    | .wildcard, _ => true
    | .var, _ => true
    | .alias, _ => true
    | .ignore, _ => true
    | .placeholder, _ => true
    | .int, .int => true
    | .int, .union _ => true
    | .float, .float => true
    | .float, .union _ => true
    | .string, .binary => true
    | .string, .union _ => true
    | .stringPattern, .binary => true
    | .stringPattern, .union _ => true
    | .atom, .literalAtom payload => pattern.text = some payload
    | .atom, .atom => true
    | .constructor, .tuple (.literalAtom head :: items) =>
      pattern.text.any (fun name => constructorPatternAtomName name = head) &&
        pattern.children.length = items.length &&
          (pattern.children.zip items).attach.all fun ⟨(child, item), _⟩ =>
            syntaxPatternSubsumesVariant child item
    | .constructor, .literalAtom head =>
      pattern.children.isEmpty &&
        pattern.text.any fun name => constructorPatternAtomName name = head
    | .tuple, .tuple items =>
      pattern.children.length = items.length &&
        (pattern.children.zip items).attach.all fun ⟨(child, item), _⟩ =>
          syntaxPatternSubsumesVariant child item
    | .list, .list _ => true
    | .listCons, .list _ => true
    | .map, .map entries =>
      pattern.fields.all fun key => entries.any fun entry => entry.key = key
    | .map, ty => isMapType ty
    | .mapField, ty => isMapType ty
    | _, .union variants =>
      variants.attach.any fun ⟨item, _⟩ => syntaxPatternSubsumesVariant pattern item
    | _, _ => false
termination_by sizeOf pattern + sizeOf variant
decreasing_by
  · have := sizeOf_child (_h ▸ mem_cons_self)
    omega
  · next hmem =>
    simp only [wfParam] at hmem
    have := sizeOf_child (of_mem_zip hmem).1
    have := sizeOf_lt_of_mem (of_mem_zip hmem).2
    simp
    omega
  · next hmem =>
    simp only [wfParam] at hmem
    have := sizeOf_child (of_mem_zip hmem).1
    have := sizeOf_lt_of_mem (of_mem_zip hmem).2
    simp
    omega
  · next hmem =>
    simp only [wfParam] at hmem
    have := sizeOf_lt_of_mem hmem
    simp
    omega

/-! ## Finite coverage -/

inductive FiniteCoverageError where
  | analysisBudget
  | nestingBudget
deriving DecidableEq

def maxRegions : Nat := 4096

def maxRefinements : Nat := 65536

def maxDepth : Nat := 256

mutual

/-- Whether a type has finite products that need checking. -/
def hasFiniteFields : Ty → Bool
  | .bool => true
  | .union _ => true
  | .tuple items => anyFiniteFields items
  | _ => false

def anyFiniteFields : List Ty → Bool
  | [] => false
  | item :: items => hasFiniteFields item || anyFiniteFields items

end

/-- The pattern inside an alias or a constant. -/
def nestedPattern (pattern : SyntaxPatternOutput) : Option SyntaxPatternOutput :=
  if pattern.kind = .alias || isConstPattern pattern then pattern.children.head? else none

/-- The fields of a tuple type that the children of a pattern stand for: their offset. -/
def tupleChildren (pattern : SyntaxPatternOutput) (items : List Ty) : Option Nat :=
  match pattern.kind with
  | .tuple => if pattern.children.length = items.length then some 0 else none
  | .constructor =>
    match items, pattern.text with
    | .literalAtom head :: _, some name =>
      if constructorPatternAtomName name = head ∧
          pattern.children.length + 1 = items.length then some 1 else none
    | _, _ => none
  | _ => none

theorem sizeOf_nestedPattern
    (h : nestedPattern pattern = some child) : sizeOf child < sizeOf pattern := by
  unfold nestedPattern at h
  split at h
  · exact sizeOf_child (mem_of_mem_head? h)
  · cases h

theorem sizeOf_coordinate {items : List Ty} {item : Ty}
    {offset : Nat} (h : (child, item) ∈ pattern.children.zip (items.drop offset)) :
    sizeOf child + sizeOf item < sizeOf pattern + sizeOf (Ty.tuple items) := by
  have := sizeOf_child (of_mem_zip h).1
  have := sizeOf_lt_of_mem (mem_of_mem_drop (of_mem_zip h).2)
  rw [Ty.tuple.sizeOf_spec]
  omega

/-- Whether every value of the type is matched by the pattern. -/
def covers (pattern : SyntaxPatternOutput) (ty : Ty) : Bool :=
  match _h : nestedPattern pattern with
  | some child => covers child ty
  | none =>
    match ty with
    | .union items => items.attach.all fun ⟨item, _⟩ => covers pattern item
    | .tuple items =>
      match tupleChildren pattern items with
      | some offset =>
        (pattern.children.zip (items.drop offset)).attach.all fun ⟨(child, item), _⟩ =>
          covers child item
      | none => syntaxPatternSubsumesVariant pattern (.tuple items)
    | ty => syntaxPatternSubsumesVariant pattern ty
termination_by sizeOf pattern + sizeOf ty
decreasing_by
  · have := sizeOf_nestedPattern _h
    omega
  · next hmem =>
    have := sizeOf_lt_of_mem hmem
    simp
    omega
  · next hmem => exact sizeOf_coordinate hmem

/-- Whether no value of the type is matched by the pattern. -/
def disjoint (pattern : SyntaxPatternOutput) (ty : Ty) : Bool :=
  match _h : nestedPattern pattern with
  | some child => disjoint child ty
  | none =>
    match ty with
    | .literalAtom payload =>
      if pattern.kind = .atom then pattern.text.any (· ≠ payload)
      else if pattern.kind = .constructor ∧ pattern.children.isEmpty then
        !syntaxPatternSubsumesVariant pattern ty
      else false
    | .tuple items =>
      match tupleChildren pattern items with
      | some offset =>
        (pattern.children.zip (items.drop offset)).attach.any fun ⟨(child, item), _⟩ =>
          disjoint child item
      | none => false
    | .union items => items.attach.all fun ⟨item, _⟩ => disjoint pattern item
    | _ => false
termination_by sizeOf pattern + sizeOf ty
decreasing_by
  · have := sizeOf_nestedPattern _h
    omega
  · next hmem => exact sizeOf_coordinate hmem
  · next hmem =>
    have := sizeOf_lt_of_mem hmem
    simp
    omega

mutual

/-- Splits a region on the first finite coordinate that the pattern tests. -/
def refine (pattern : SyntaxPatternOutput) (ty : Ty) (depth : Nat) :
    Except FiniteCoverageError (Option (Ty × Ty)) :=
  if maxDepth < depth then .error .nestingBudget
  else
    match _h : nestedPattern pattern with
    | some child => refine child ty (depth + 1)
    | none =>
      if disjoint pattern ty then .ok none
      else
        match ty with
        | .bool =>
          if pattern.kind = .atom ∧
              (pattern.text = some "true" ∨ pattern.text = some "false") then
            .ok (some (.literalAtom "true", .literalAtom "false"))
          else .ok none
        | .union (first :: second :: []) => .ok (some (first, second))
        | .union (first :: second :: rest) => .ok (some (first, .union (second :: rest)))
        | .tuple items =>
          match tupleChildren pattern items with
          | some offset => do
            let split ← refineFields pattern.children (items.drop offset) (depth + 1)
            return split.map fun (left, right) =>
              (.tuple (items.take offset ++ left), .tuple (items.take offset ++ right))
          | none => .ok none
        | _ => .ok none
termination_by sizeOf pattern
decreasing_by
  · exact sizeOf_nestedPattern _h
  · exact sizeOf_children pattern

/-- The first field that its pattern splits. -/
def refineFields (children : List SyntaxPatternOutput) (items : List Ty) (depth : Nat) :
    Except FiniteCoverageError (Option (List Ty × List Ty)) :=
  match children, items with
  | child :: children, item :: items => do
    match ← refine child item depth with
    | some (left, right) => return some (left :: items, right :: items)
    | none =>
      let split ← refineFields children items depth
      return split.map fun (left, right) => (item :: left, item :: right)
  | _, _ => .ok none
termination_by sizeOf children

end

/-- `subtract_finite_pattern` with `budget` refinements left. The region at the head of
`pending` is the next one. -/
def subtractFrom (pattern : SyntaxPatternOutput) :
    Nat → List Ty → List Ty → Except FiniteCoverageError (List Ty)
  | _, [], output => .ok output
  | 0, _ :: _, _ => .error .analysisBudget
  | budget + 1, region :: pending, output =>
    if maxRegions ≤ pending.length + output.length then .error .analysisBudget
    else if covers pattern region then subtractFrom pattern budget pending output
    else do
      match ← refine pattern region 0 with
      | some (left, right) => subtractFrom pattern budget (left :: right :: pending) output
      | none => subtractFrom pattern budget pending (output ++ [region])

/-- Subtracts one unguarded pattern from the regions that remain. -/
def subtractFinitePattern (remaining : List Ty) (pattern : SyntaxPatternOutput) :
    Except FiniteCoverageError (List Ty) :=
  subtractFrom pattern maxRefinements remaining []

/-! ## Analysis -/

/-- Adds candidates to the variants of a union: `none` when one of them is `Term`. -/
def normalizeVariants (normalized : List Ty) : List Ty → Option (List Ty)
  | [] => some normalized
  | candidate :: candidates =>
    if candidate = .never then normalizeVariants normalized candidates
    else if candidate = .term then none
    else if normalized.any (isSubtype candidate) then normalizeVariants normalized candidates
    else
      normalizeVariants
        ((normalized.filter fun existing => !isSubtype existing candidate) ++ [candidate])
        candidates

/-- The members of a union; another type is its own member. -/
def unionMembers : Ty → List Ty
  | .union items => items
  | other => [other]

def normalizeUnion (types : List Ty) : Ty :=
  match normalizeVariants [] (types.reverse.flatMap unionMembers) with
  | none => .term
  | some [] => .never
  | some [ty] => ty
  | some normalized => .union normalized

/-- The variants of a type that matter for exhaustiveness. -/
def asExhaustiveUnionVariants (ty : Ty) : List Ty :=
  match normalizeUnion [ty] with
  | .union items => items.flatMap unionMembers
  | .never => []
  | other => [other]

structure Analysis where
  exhaustive : Option Bool
  remaining : List Ty
  guardedClauses : List Nat
  reason : Option String
  error : Option (Nat × FiniteCoverageError)

/-- The kinds that match every value by themselves. -/
def isCatchAll (kind : SyntaxPatternKind) : Bool :=
  kind = .wildcard || kind = .ignore || kind = .placeholder || kind = .var

/-- The clauses from `index` on, with the regions that remain before them. -/
def analyzeFrom (guardedClauses : List Nat) (remaining : List Ty) (index : Nat) :
    List (SyntaxPatternOutput × Bool) → Analysis
  | [] => ⟨some remaining.isEmpty, remaining, guardedClauses, none, none⟩
  | (pattern, guarded) :: patterns =>
    if guarded then analyzeFrom guardedClauses remaining (index + 1) patterns
    else if isCatchAll pattern.kind then ⟨some true, [], guardedClauses, none, none⟩
    else
      match subtractFinitePattern remaining pattern with
      | .error message =>
        ⟨none, [], guardedClauses, some "unsupported_pattern", some (index, message)⟩
      | .ok [] => ⟨some true, [], guardedClauses, none, none⟩
      | .ok remaining => analyzeFrom guardedClauses remaining (index + 1) patterns

/-- The verdict on a case: its clause patterns, each with whether it is guarded. -/
def analyze (expected : Ty) (patterns : List (SyntaxPatternOutput × Bool)) : Analysis :=
  let remaining := asExhaustiveUnionVariants expected
  let guardedClauses := (patterns.zipIdx.filter fun entry => entry.1.2).map Prod.snd
  if remaining.length ≤ 1 && !hasFiniteFields expected then
    ⟨none, [], guardedClauses, some "finite_domain_not_available", none⟩
  else analyzeFrom guardedClauses remaining 0 patterns

end Terlan.Typeck
