/-
  Simulation of methods. States, failures and results of one method are translated to those of
  another. The second does as the first on every call whose notes are all of a kind: a run that
  would note something else is not compared. A method that only adds to its log keeps the notes
  of its parts, so parts are compared on the runs of the whole.
-/
import Terlan.Lib.Log

namespace Terlan.Lib

variable {ε ε' ε₁ ε₁' σ σ' η α α' β β' : Type} {log : σ → List η} {Kept : η → Prop}
  {onState : σ → σ'} {onError : ε → ε'} {onError₁ : ε₁ → ε₁'} {onResult : α → α'} {onNext : β → β'}

/-- The translation of a result. -/
def mapOutcome (onError : ε → ε') (onResult : α → α') (outcome : Except ε α) : Except ε' α' :=
  (outcome.mapError onError).map onResult

structure Simulates (log : σ → List η) (Kept : η → Prop) (onState : σ → σ') (onError : ε → ε')
    (onResult : α → α') (m : Method ε σ α) (m' : Method ε' σ' α') : Prop where
  grows : Extends log m
  run : ∀ s, (∀ note ∈ log (m.call s).1, Kept note) →
    m'.call (onState s) = (onState (m.call s).1, mapOutcome onError onResult (m.call s).2)

namespace Simulates

theorem pure (a : α) : Simulates log Kept onState onError onResult (pure a) (pure (onResult a)) :=
  ⟨extends_pure a, fun _ _ => rfl⟩

theorem throw (e : ε) : Simulates log Kept onState onError onResult (throw e) (throw (onError e)) :=
  ⟨extends_throw e, fun _ _ => rfl⟩

theorem lift (outcome : Except ε α) : Simulates log Kept onState onError onResult (liftM outcome)
      (liftM (mapOutcome onError onResult outcome)) :=
  ⟨extends_lift outcome, fun _ _ => rfl⟩

theorem ofCall {f : σ → σ × Except ε α} {f' : σ' → σ' × Except ε' α'}
    (grows : ∀ s, log s <:+ log (f s).1)
    (same : ∀ s, f' (onState s) = (onState (f s).1, mapOutcome onError onResult (f s).2)) :
    Simulates log Kept onState onError onResult (.ofCall f) (.ofCall f') :=
  ⟨grows, fun s _ => same s⟩

variable {m' : Method ε' σ' α'} {m : Method ε σ α}

/-- The second part is compared where the first returned, and the first on the notes of both. -/
theorem bind {k : α → Method ε σ β} {k' : α' → Method ε' σ' β'}
    (first : Simulates log Kept onState onError onResult m m')
    (second : ∀ a, Simulates log Kept onState onError onNext (k a) (k' (onResult a))) :
    Simulates log Kept onState onError onNext (m >>= k) (m' >>= k') where
  grows := extends_bind first.grows fun a => (second a).grows
  run := by
    intro s kept
    rw [call_bind] at kept ⊢
    rw [call_bind]
    have same := first.run s
    rcases ran : m.call s with ⟨t, e | a⟩
    · rw [ran] at kept same
      rw [same kept]
      rfl
    · rw [ran] at kept same
      have before : ∀ note ∈ log t, Kept note :=
        fun note mem => kept note (((second a).grows t).subset mem)
      rw [same before]
      exact (second a).run t kept

theorem attempt (h : Simulates log Kept onState onError onResult m m') :
    Simulates log Kept onState onError₁ (mapOutcome onError onResult) m.attempt m'.attempt where
  grows := extends_attempt h.grows
  run := by
    intro s kept
    rw [call_attempt, call_attempt, h.run s kept]
    rfl

theorem mapError {f : ε → ε₁} {f' : ε' → ε₁'} (h : Simulates log Kept onState onError onResult m m')
    (commutes : ∀ e, f' (onError e) = onError₁ (f e)) :
    Simulates log Kept onState onError₁ onResult (m.mapError f) (m'.mapError f') where
  grows := extends_mapError h.grows
  run := by
    intro s kept
    rw [call_mapError, call_mapError, h.run s kept]
    rcases m.call s with ⟨t, e | a⟩
    · simp only [mapOutcome, Except.mapError, Except.map, commutes]
    · rfl

/-- What is noted before the rest is a note of the whole. -/
theorem note {f : σ → σ} {f' : σ' → σ'} {noted : η}
    (adds : ∀ s, log (f s) = noted :: log s) (same : ∀ s, f' (onState s) = onState (f s))
    (rest : Kept noted → Simulates log Kept onState onError onResult m m') (grows : Extends log m) :
    Simulates log Kept onState onError onResult (modify f >>= fun _ => m)
      (modify f' >>= fun _ => m') where
  grows := extends_bind (extends_modify fun s => by rw [adds]; exact List.suffix_cons _ _)
    fun _ => grows
  run := by
    intro s kept
    rw [call_modify_bind] at kept ⊢
    rw [call_modify_bind]
    have mem : noted ∈ log (m.call (f s)).1 :=
      (grows (f s)).subset (by rw [adds]; exact List.mem_cons_self)
    rw [same]
    exact (rest (kept noted mem)).run (f s) kept

end Simulates

end Terlan.Lib
