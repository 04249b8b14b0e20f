/-
  Methods of an object that keeps a log. A method that only adds to the log keeps the notes made
  before it, so what holds of every note of a whole run holds of those of its parts.
-/
import Terlan.Lib.Method

namespace Terlan.Lib

variable {ε ε' σ η α β : Type} {log : σ → List η}

/-- The log before a call is the end of the log after it. -/
def Extends (log : σ → List η) (m : Method ε σ α) : Prop := ∀ s, log s <:+ log (m.call s).1

theorem extends_pure (a : α) : Extends log (pure a : Method ε σ α) := fun _ => List.suffix_refl _

theorem extends_throw (e : ε) : Extends log (throw e : Method ε σ α) := fun _ => List.suffix_refl _

theorem extends_lift (x : Except ε α) : Extends log (liftM x : Method ε σ α) :=
  fun _ => List.suffix_refl _

theorem extends_modify {f : σ → σ} (step : ∀ s, log s <:+ log (f s)) :
    Extends log (modify f : Method ε σ Unit) := step

variable {m : Method ε σ α}

theorem extends_bind {f : α → Method ε σ β} (first : Extends log m)
    (second : ∀ a, Extends log (f a)) : Extends log (m >>= f) := by
  intro s
  rw [call_bind]
  have noted := first s
  rcases run : m.call s with ⟨s', e | a⟩
  · rw [run] at noted
    exact noted
  · rw [run] at noted
    exact noted.trans (second a s')

theorem extends_get_bind {f : σ → Method ε σ β} (rest : ∀ s, Extends log (f s)) :
    Extends log (get >>= f) := fun s => rest s s

theorem extends_map {f : α → β} (h : Extends log m) : Extends log (f <$> m) :=
  extends_bind h fun _ => extends_pure _

theorem extends_attempt (h : Extends log m) :
    Extends log (m.attempt : Method ε' σ (Except ε α)) := h

theorem extends_mapError {f : ε → ε'} (h : Extends log m) : Extends log (m.mapError f) := h

end Terlan.Lib
