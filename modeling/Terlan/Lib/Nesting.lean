/-
  Nested brackets: a scan of a text that keeps the brackets still open, so that texts compose.
  A text is `Nested` when every bracket in it is closed in order, and a `Piece` when it
  also has no separator outside its brackets. What stands inside a bracket can be replaced by
  any other nested text.
-/
import Mathlib.Data.List.Basic

namespace Terlan.Lib

open List

/-- What a symbol does to the brackets open around it. -/
inductive Mark (κ : Type) where
  | opening (b : κ)
  | closing (b : κ)
  | plain
deriving DecidableEq

section Nesting

variable {α κ : Type} [DecidableEq κ] (mark : α → Mark κ)

/-- The brackets open after a text, innermost first. Fails at a bracket that closes another
than the innermost, and at a symbol that stops the scan outside all brackets. -/
def scan (stop : α → Bool) : List κ → List α → Option (List κ)
  | pending, [] => some pending
  | pending, a :: text =>
    match mark a with
    | .opening b => scan stop (b :: pending) text
    | .closing b =>
      match pending with
      | b' :: pending => if b = b' then scan stop pending text else none
      | [] => none
    | .plain => if stop a && pending.isEmpty then none else scan stop pending text

/-- Every bracket is closed in order. -/
def Nested (text : List α) : Prop := scan mark (fun _ => false) [] text = some []

/-- Nested, with no separator outside all brackets. -/
def Piece (separates : α → Bool) (text : List α) : Prop := scan mark separates [] text = some []

variable {mark} {stop stop' : α → Bool} {pending above base out : List κ} {text rest : List α}

theorem scan_append : scan mark stop pending (text ++ rest) =
      (scan mark stop pending text).bind fun out => scan mark stop out rest := by
  induction text generalizing pending with
  | nil => rfl
  | cons a text ih =>
    simp only [cons_append, scan]
    cases mark a with
    | opening b => exact ih
    | closing b =>
      cases pending with
      | nil => rfl
      | cons b' pending =>
        dsimp only
        split
        · exact ih
        · rfl
    | plain =>
      dsimp only
      split
      · rfl
      · exact ih

/-- A scan does not look below the brackets that it closes. -/
theorem scan_above (run : scan mark stop above text = some out)
    (inside : base ≠ [] ∨ ∀ a, stop' a = true → stop a = true) :
    scan mark stop' (above ++ base) text = some (out ++ base) := by
  induction text generalizing above with
  | nil =>
    cases run
    rfl
  | cons a text ih =>
    simp only [scan] at run ⊢
    cases marked : mark a with
    | opening b =>
      rw [marked] at run
      exact ih run
    | closing b =>
      rw [marked] at run
      cases above with
      | nil => cases run
      | cons b' above =>
        simp only [Option.ite_none_right_eq_some] at run
        simp only [cons_append, if_pos run.1]
        exact ih run.2
    | plain =>
      rw [marked] at run
      simp only [Option.ite_none_left_eq_some] at run
      have goes : ¬ (stop' a && (above ++ base).isEmpty) = true := by
        intro stops
        simp only [Bool.and_eq_true, List.isEmpty_iff, append_eq_nil_iff] at stops
        rcases inside with outer | weaker
        · exact outer stops.2.2
        · exact run.1 (by simp [weaker a stops.1, stops.2.1])
      simp only [if_neg goes]
      exact ih run.2

theorem Piece.nested {separates : α → Bool} (piece : Piece mark separates text) :
    Nested mark text := by
  have run := @scan_above _ _ _ _ _ (fun _ => false) _ [] _ _ piece (.inr (by simp))
  exact run

/-- Inside a bracket a nested text changes nothing. -/
theorem Nested.scan_inside (nested : Nested mark text) (inside : base ≠ []) :
    scan mark stop base text = some base :=
  scan_above nested (.inl inside)

/-- A bracket that a scan closes is closed by a symbol of its own, after a nested text. -/
theorem exists_closing {b : κ} (run : scan mark stop (above ++ b :: pending) text = some out)
    (closed : out.length ≤ pending.length) :
    ∃ inner c rest, text = inner ++ c :: rest ∧ mark c = .closing b ∧
      scan mark (fun _ => false) above inner = some [] ∧ scan mark stop pending rest = some out := by
  induction text generalizing above with
  | nil =>
    cases run
    simp at closed
    omega
  | cons a text ih =>
    simp only [scan] at run
    cases marked : mark a with
    | opening b' =>
      rw [marked] at run
      obtain ⟨inner, c, rest, rfl, closes, nested, after⟩ := @ih (b' :: above) run
      refine ⟨a :: inner, c, rest, rfl, closes, ?_, after⟩
      simp only [scan, marked, nested]
    | closing b' =>
      rw [marked] at run
      cases above with
      | nil =>
        simp only [nil_append, Option.ite_none_right_eq_some] at run
        obtain ⟨rfl, run⟩ := run
        exact ⟨[], a, text, rfl, marked, rfl, run⟩
      | cons b'' above =>
        simp only [cons_append, Option.ite_none_right_eq_some] at run
        obtain ⟨inner, c, rest, rfl, closes, nested, after⟩ := ih run.2
        refine ⟨a :: inner, c, rest, rfl, closes, ?_, after⟩
        simp only [scan, marked, if_pos run.1, nested]
    | plain =>
      rw [marked] at run
      simp only [Option.ite_none_left_eq_some] at run
      obtain ⟨inner, c, rest, rfl, closes, nested, after⟩ := ih run.2
      refine ⟨a :: inner, c, rest, rfl, closes, ?_, after⟩
      simp only [scan, marked, nested]
      simp

/-- The parts of a nested text around a bracket whose opening stands after `before`. -/
theorem exists_group {b : κ} {before : List α} {a : α} (opens : mark a = .opening b)
    (run : scan mark stop [] (before ++ a :: text) = some []) :
    ∃ inner c rest, text = inner ++ c :: rest ∧ mark c = .closing b ∧ Nested mark inner := by
  rw [scan_append, Option.bind_eq_some_iff] at run
  obtain ⟨pending, _, run⟩ := run
  simp only [scan, opens] at run
  obtain ⟨inner, c, rest, eq, closes, nested, _⟩ :=
    @exists_closing _ _ _ mark stop pending [] [] text b run (Nat.zero_le _)
  exact ⟨inner, c, rest, eq, closes, nested⟩

/-- The text inside a bracket can be exchanged. -/
theorem scan_exchange {b : κ} {before inner inner' after : List α} {a c : α}
    (opens : mark a = .opening b) (nested : Nested mark inner) (nested' : Nested mark inner') :
    scan mark stop pending (before ++ a :: (inner' ++ c :: after)) =
      scan mark stop pending (before ++ a :: (inner ++ c :: after)) := by
  rw [scan_append, scan_append]
  congr 1
  funext out
  simp only [scan, opens]
  rw [scan_append, scan_append, nested.scan_inside (cons_ne_nil _ _),
    nested'.scan_inside (cons_ne_nil _ _)]

end Nesting

end Terlan.Lib
