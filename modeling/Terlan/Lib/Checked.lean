/-
  Computations that may fail, with or without a state: a `Result` is `Except`. Where
  a failure ends the use of `&mut self`, a method is `StateT` over it, and a successful
  sequence is a sequence of successes. Where the object lives on after a failure, a method is
  a `Method`, which keeps what was written before the failure.
-/
import Mathlib.Data.List.Perm.Basic

namespace Terlan.Lib

open List

/-- `if condition { return Err(error) }`. -/
def failIf {ε : Type} (condition : Prop) [Decidable condition] (error : ε) : Except ε Unit :=
  if condition then .error error else .ok ()

theorem failIf_ok_iff {ε : Type} {condition : Prop} [Decidable condition] {error : ε} :
    failIf condition error = .ok () ↔ ¬ condition := by
  unfold failIf
  split <;> simp_all

theorem except_bind_ok_iff {ε α β : Type} {x : Except ε α} {f : α → Except ε β} {b : β} :
    (x >>= f) = .ok b ↔ ∃ a, x = .ok a ∧ f a = .ok b := by
  cases x with
  | error | ok => simp [bind, Except.bind]

theorem except_map_ok_iff {ε α β : Type} {x : Except ε α} {f : α → β} {b : β} :
    (f <$> x) = .ok b ↔ ∃ a, x = .ok a ∧ f a = b := by
  cases x with
  | error | ok => simp [Functor.map, Except.map]

/-- A check before the rest. -/
theorem check_bind_ok_iff {ε β : Type} {x : Except ε Unit} {rest : Except ε β} {b : β} :
    (x >>= fun _ => rest) = .ok b ↔ x = .ok () ∧ rest = .ok b := by
  rw [except_bind_ok_iff]
  exact ⟨fun ⟨⟨⟩, check, run⟩ => ⟨check, run⟩, fun ⟨check, run⟩ => ⟨(), check, run⟩⟩

/-- A list is worked through when each of its members is. -/
theorem mapM_ok_iff {ε α β : Type} {f : α → Except ε β} {xs : List α} {ys : List β} :
    xs.mapM f = .ok ys ↔ List.Forall₂ (fun x y => f x = .ok y) xs ys := by
  induction xs generalizing ys with
  | nil =>
    rw [mapM_nil, List.forall₂_nil_left_iff]
    exact ⟨fun h => by cases h; rfl, fun h => by rw [h]; rfl⟩
  | cons x xs ih =>
    rw [mapM_cons, except_bind_ok_iff, List.forall₂_cons_left_iff]
    constructor
    · rintro ⟨y, first, rest⟩
      obtain ⟨ys', others, eq⟩ := except_bind_ok_iff.mp rest
      cases eq
      exact ⟨y, ys', first, ih.mp others, rfl⟩
    · rintro ⟨y, ys', first, others, rfl⟩
      exact ⟨y, first, except_bind_ok_iff.mpr ⟨ys', ih.mpr others, rfl⟩⟩

theorem mapM_error {ε α β : Type} {f : α → Except ε β} {xs : List α} {e : ε}
    (h : xs.mapM f = .error e) : ∃ x ∈ xs, f x = .error e := by
  induction xs with
  | nil => cases h
  | cons x xs ih =>
    rw [mapM_cons] at h
    cases first : f x with
    | error e' =>
      rw [first] at h
      cases h
      exact ⟨x, mem_cons_self, first⟩
    | ok y =>
      rw [first] at h
      cases rest : xs.mapM f with
      | error e' =>
        rw [rest] at h
        cases h
        obtain ⟨z, member, failed⟩ := ih rest
        exact ⟨z, mem_cons_of_mem _ member, failed⟩
      | ok ys =>
        rw [rest] at h
        cases h

/-- Where only one error is possible, the order of a list decides nothing but the order of the
results. -/
theorem mapM_perm {ε α β : Type} {f : α → Except ε β} {failure : ε}
    (only : ∀ x e, f x = .error e → e = failure) {xs xs' : List α} (perm : xs.Perm xs') :
    (∃ ys ys', xs.mapM f = .ok ys ∧ xs'.mapM f = .ok ys' ∧ ys.Perm ys') ∨
      (xs.mapM f = .error failure ∧ xs'.mapM f = .error failure) := by
  cases run : xs.mapM f with
  | ok ys =>
    obtain ⟨ys', related, perm'⟩ := perm_comp_forall₂ perm.symm (mapM_ok_iff.mp run)
    exact .inl ⟨ys, ys', rfl, mapM_ok_iff.mpr related, perm'.symm⟩
  | error e =>
    obtain ⟨x, _, failed⟩ := mapM_error run
    cases run' : xs'.mapM f with
    | ok ys' =>
      obtain ⟨ys, related, _⟩ := perm_comp_forall₂ perm (mapM_ok_iff.mp run')
      cases run.symm.trans (mapM_ok_iff.mpr related)
    | error e' =>
      obtain ⟨x', _, failed'⟩ := mapM_error run'
      exact .inr ⟨by rw [only x e failed], by rw [only x' e' failed']⟩

theorem exists_mapM_ok {ε α β : Type} {f : α → Except ε β} {xs : List α}
    (each : ∀ x ∈ xs, ∃ y, f x = .ok y) : ∃ ys, xs.mapM f = .ok ys := by
  induction xs with
  | nil => exact ⟨[], rfl⟩
  | cons x xs ih =>
    obtain ⟨y, first⟩ := each x mem_cons_self
    obtain ⟨ys, others⟩ := ih fun x mem => each x (mem_cons_of_mem _ mem)
    refine ⟨y :: ys, ?_⟩
    rw [mapM_cons, first, others]
    rfl

/-- A loop each of whose steps is taken. -/
theorem foldlM_eq_ok {ε α β : Type} {f : β → α → Except ε β} {g : β → α → β} {xs : List α} {b : β}
    (each : ∀ b, ∀ x ∈ xs, f b x = .ok (g b x)) : xs.foldlM f b = .ok (xs.foldl g b) := by
  induction xs generalizing b with
  | nil => rfl
  | cons x xs ih =>
    rw [foldlM_cons, each b x mem_cons_self, foldl_cons]
    exact ih fun b y mem => each b y (mem_cons_of_mem _ mem)

theorem Forall₂.exists_of_mem_right {α β : Type} {R : α → β → Prop} {xs : List α} {ys : List β}
    (h : List.Forall₂ R xs ys) {y : β} (mem : y ∈ ys) : ∃ x ∈ xs, R x y := by
  induction h with
  | nil => cases mem
  | cons head _ ih =>
    rcases mem_cons.mp mem with rfl | mem
    · exact ⟨_, mem_cons_self, head⟩
    · obtain ⟨x, listed, related⟩ := ih mem
      exact ⟨x, mem_cons_of_mem _ listed, related⟩

theorem bind_ok_iff {σ α β : Type} {a : StateT σ (Except String) α}
    {f : α → StateT σ (Except String) β} {s s'' : σ} {b : β} :
    (a >>= f) s = .ok (b, s'') ↔ ∃ x s', a s = .ok (x, s') ∧ f x s' = .ok (b, s'') := by
  change StateT.bind a f s = _ ↔ _
  unfold StateT.bind
  rw [except_bind_ok_iff]
  constructor
  · rintro ⟨⟨x, s'⟩, first, second⟩
    exact ⟨x, s', first, second⟩
  · rintro ⟨x, s', first, second⟩
    exact ⟨(x, s'), first, second⟩

theorem lift_ok_iff {σ α : Type} {x : Except String α} {s s' : σ} {a : α} :
    (liftM x : StateT σ (Except String) α) s = .ok (a, s') ↔ x = .ok a ∧ s' = s := by
  change (StateT.lift x : StateT σ (Except String) α) s = _ ↔ _
  unfold StateT.lift
  rw [except_bind_ok_iff]
  constructor
  · rintro ⟨b, run, eq⟩
    cases eq
    exact ⟨run, rfl⟩
  · rintro ⟨run, rfl⟩
    exact ⟨a, run, rfl⟩

/-! ## Methods -/

/-- A method on `&mut self` whose object outlives a failure. -/
abbrev Method (ε σ α : Type) := ExceptT ε (StateM σ) α

/-- The object after the call, and the result. -/
def Method.call {ε σ α : Type} (method : Method ε σ α) (s : σ) : σ × Except ε α :=
  let (result, s') := method.run.run s
  (s', result)

section Method

variable {ε σ α β : Type}

@[simp] theorem call_pure (a : α) (s : σ) :
    Method.call (pure a : Method ε σ α) s = (s, .ok a) := rfl

@[simp] theorem call_lift (x : Except ε α) (s : σ) :
    Method.call (liftM x : Method ε σ α) s = (s, x) := rfl

@[simp] theorem call_modify (f : σ → σ) (s : σ) :
    Method.call (modify f : Method ε σ Unit) s = (f s, .ok ()) := rfl

theorem call_bind (a : Method ε σ α) (b : α → Method ε σ β) (s : σ) :
    Method.call (a >>= b) s =
      match Method.call a s with
      | (s', .ok x) => Method.call (b x) s'
      | (s', .error e) => (s', .error e) := by
  simp only [Method.call, ExceptT.run_bind, StateT.run_bind]
  rcases a.run.run s with ⟨result, s'⟩
  cases result <;> rfl

theorem call_bind_of_ok {a : Method ε σ α} {s s' : σ} {x : α}
    (h : Method.call a s = (s', .ok x)) (b : α → Method ε σ β) :
    Method.call (a >>= b) s = Method.call (b x) s' := by
  rw [call_bind, h]

/-- A check that fails leaves the object as it is. -/
theorem call_check_bind (x : Except ε α) (b : α → Method ε σ β) (s : σ) :
    Method.call (liftM x >>= b) s =
      match x with
      | .ok a => Method.call (b a) s
      | .error e => (s, .error e) := by
  rw [call_bind, call_lift]
  cases x <;> rfl

theorem call_get_bind (b : σ → Method ε σ β) (s : σ) :
    Method.call (get >>= b) s = Method.call (b s) s := rfl

theorem call_modify_bind (f : σ → σ) (b : Unit → Method ε σ β) (s : σ) :
    Method.call (modify f >>= b) s = Method.call (b ()) (f s) := rfl

end Method

end Terlan.Lib
