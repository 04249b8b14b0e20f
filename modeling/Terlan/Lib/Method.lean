/-
  Methods that call methods. A component owns others: `Method.within` runs a method of a part
  on the whole. `Keeps` is a property of the object that a method keeps whether it returns or
  fails, with one rule for each way to build a method.
-/
import Terlan.Lib.Checked

namespace Terlan.Lib

variable {ε ε' σ τ α β : Type}

/-! ## Building methods -/

/-- A function that returns the changed object with its result. -/
def Method.ofCall (f : σ → σ × Except ε α) : Method ε σ α :=
  ExceptT.mk fun s => ((f s).2, (f s).1)

/-- `map_err`. -/
def Method.mapError (f : ε → ε') (m : Method ε σ α) : Method ε' σ α :=
  .ofCall fun s => ((m.call s).1, (m.call s).2.mapError f)

/-- The result of a method as a value, for a caller that looks at the failure itself. -/
def Method.attempt (m : Method ε σ α) : Method ε' σ (Except ε α) :=
  .ofCall fun s => ((m.call s).1, .ok (m.call s).2)

/-- A method of one part of an object. -/
def Method.within (part : τ → σ) (put : σ → τ → τ) (m : Method ε σ α) : Method ε τ α :=
  .ofCall fun t => (put (m.call (part t)).1 t, (m.call (part t)).2)

/-- How a method ends without a result. -/
inductive Fault (ε : Type) where
  | returned (e : ε)
  | panicked (text : String)
deriving DecidableEq

/-- `expect`. -/
def Method.expect (text : String) (m : Method ε σ α) : Method (Fault ε') σ α :=
  m.mapError fun _ => .panicked text

/-- The `?` operator in a method that may panic. -/
def Method.orReturn (m : Method ε σ α) : Method (Fault ε) σ α := m.mapError .returned

@[simp] theorem call_ofCall (f : σ → σ × Except ε α) (s : σ) :
    Method.call (.ofCall f) s = f s := rfl

@[simp] theorem call_mapError (f : ε → ε') (m : Method ε σ α) (s : σ) :
    Method.call (m.mapError f) s = ((m.call s).1, (m.call s).2.mapError f) := rfl

@[simp] theorem call_attempt (m : Method ε σ α) (s : σ) :
    Method.call (m.attempt : Method ε' σ (Except ε α)) s = ((m.call s).1, .ok (m.call s).2) := rfl

@[simp] theorem call_within (part : τ → σ) (put : σ → τ → τ) (m : Method ε σ α) (t : τ) :
    Method.call (m.within part put) t = (put (m.call (part t)).1 t, (m.call (part t)).2) := rfl

@[simp] theorem call_expect (text : String) (m : Method ε σ α) (s : σ) :
    Method.call (m.expect text : Method (Fault ε') σ α) s =
      ((m.call s).1, (m.call s).2.mapError fun _ => .panicked text) := rfl

@[simp] theorem call_orReturn (m : Method ε σ α) (s : σ) :
    Method.call m.orReturn s = ((m.call s).1, (m.call s).2.mapError .returned) := rfl

theorem call_ite (c : Prop) [Decidable c] (m m' : Method ε σ α) (s : σ) :
    Method.call (if c then m else m') s = if c then m.call s else m'.call s :=
  apply_ite (Method.call · s) c m m'

theorem call_map (f : α → β) (m : Method ε σ α) (s : σ) :
    Method.call (f <$> m) s = ((m.call s).1, (m.call s).2.map f) := by
  change Method.call (m >>= fun a => pure (f a)) s = _
  rw [call_bind]
  rcases Method.call m s with ⟨s', e | x⟩
  · rfl
  · rfl

/-- A sequence that returns is two that return. -/
theorem call_bind_ok_iff {a : Method ε σ α} {b : α → Method ε σ β} {s s'' : σ} {y : β} :
    Method.call (a >>= b) s = (s'', .ok y) ↔
      ∃ s' x, Method.call a s = (s', .ok x) ∧ Method.call (b x) s' = (s'', .ok y) := by
  rw [call_bind]
  rcases Method.call a s with ⟨s', e | x⟩
  · simp
  constructor
  · intro run
    exact ⟨s', x, rfl, run⟩
  · rintro ⟨t, z, same, run⟩
    cases same
    exact run

/-! ## Properties that a method keeps -/

/-- From states with `P` a call ends in states with `Q`, failed or not. -/
def Leads (P Q : σ → Prop) (m : Method ε σ α) : Prop := ∀ s, P s → Q (m.call s).1

/-- The property holds after the call when it held before, failed or not. -/
abbrev Keeps (I : σ → Prop) (m : Method ε σ α) : Prop := Leads I I m

section Leads

variable {I P Q R : σ → Prop}

theorem keeps_pure (a : α) : Keeps I (pure a : Method ε σ α) := fun _ h => h

theorem keeps_throw (e : ε) : Keeps I (throw e : Method ε σ α) := fun _ h => h

theorem keeps_lift (x : Except ε α) : Keeps I (liftM x : Method ε σ α) := fun _ h => h

theorem leads_modify {f : σ → σ} (step : ∀ s, P s → Q (f s)) :
    Leads P Q (modify f : Method ε σ Unit) := step

variable {b : α → Method ε σ β}

/-- A first part that may fail halfway, and the rest. -/
theorem leads_bind {a : Method ε σ α} (first : Leads P Q a)
    (failed : ∀ s, Q s → R s) (second : ∀ x, Leads Q R (b x)) : Leads P R (a >>= b) := by
  intro s h
  have h' := first s h
  rw [call_bind]
  rcases run : Method.call a s with ⟨s', e | x⟩
  · rw [run] at h'
    exact failed s' h'
  · rw [run] at h'
    exact second x s' h'

theorem keeps_bind {a : Method ε σ α} (first : Keeps I a)
    (second : ∀ x, Keeps I (b x)) : Keeps I (a >>= b) :=
  leads_bind first (fun _ h => h) second

/-- What was read is the object itself. -/
theorem leads_get_bind {b : σ → Method ε σ β}
    (rest : ∀ s, P s → Q ((b s).call s).1) : Leads P Q (get >>= b) := rest

theorem keeps_get_bind {b : σ → Method ε σ β} (rest : ∀ s, Keeps I (b s)) :
    Keeps I (get >>= b) := fun s h => rest s s h

/-- A check that fails leaves the object as it is. -/
theorem leads_check_bind {x : Except ε α} (weaker : ∀ s, P s → Q s)
    (rest : ∀ a, x = .ok a → Leads P Q (b a)) : Leads P Q (liftM x >>= b) := by
  intro s h
  rw [call_check_bind]
  cases x with
  | error e => exact weaker s h
  | ok a => exact rest a rfl s h

theorem leads_ite {c : Prop} [Decidable c] {m m' : Method ε σ α} (yes : c → Leads P Q m)
    (no : ¬ c → Leads P Q m') : Leads P Q (if c then m else m') := by
  split
  next h => exact yes h
  next h => exact no h

variable {m : Method ε σ α}

theorem leads_weaken {P' : σ → Prop} (stronger : ∀ s, P s → P' s)
    (h : Leads P' Q m) : Leads P Q m := fun s p => h s (stronger s p)

theorem leads_map {f : α → β} (h : Leads P Q m) : Leads P Q (f <$> m) := by
  intro s p
  rw [call_map]
  exact h s p

theorem leads_attempt (h : Leads P Q m) : Leads P Q (m.attempt : Method ε' σ (Except ε α)) := h

theorem leads_mapError {f : ε → ε'} (h : Leads P Q m) : Leads P Q (m.mapError f) := h

theorem leads_expect {text : String} (h : Leads P Q m) :
    Leads P Q (m.expect text : Method (Fault ε') σ α) := h

theorem leads_orReturn (h : Leads P Q m) : Leads P Q m.orReturn := h

/-- A loop over a list. -/
theorem keeps_foldlM {f : β → α → Method ε σ β} (step : ∀ b a, Keeps I (f b a)) (as : List α)
    (b : β) : Keeps I (as.foldlM f b) := by
  induction as generalizing b with
  | nil => exact keeps_pure b
  | cons a as ih =>
    rw [List.foldlM_cons]
    exact keeps_bind (step b a) ih

/-- A method of a part, for a property of the whole. -/
theorem leads_within {part : τ → σ} {put : σ → τ → τ} {J K : τ → Prop}
    (step : ∀ t, J t → K (put (m.call (part t)).1 t)) : Leads J K (m.within part put) := step

end Leads

end Terlan.Lib
