/-
  A log that is folded over a state, and the state after the old part of it. When may the old
  part be thrown away? `compacts_iff`: that the kept events give the same state as the whole
  log, whatever the events do, is that the log is its old part followed by the kept events. The
  events are not free to do anything: the state after the old part is given. So a step function
  is built that goes through that part as it must, and takes notes of everything else.
-/
import Mathlib.Data.List.Infix
import Mathlib.Data.List.TakeWhile

namespace Terlan.Lib

open List

namespace Compaction

variable {σ ε : Type*}

/-- A step that can be read back from the state, and leaves a state of more than `bound`. -/
structure Notes (size : σ → Nat) (bound : Nat) (note : σ → ε → σ) : Prop where
  injective : ∀ s e s' e', note s e = note s' e' → s = s' ∧ e = e'
  beyond : ∀ s e, bound < size (note s e)

variable {size : σ → Nat} {bound : Nat} {note : σ → ε → σ}

/-- Two runs of notes from small states can be told apart. -/
theorem Notes.foldl_injective (notes : Notes size bound note) {events others : List ε} {s s' : σ}
    (small : size s ≤ bound) (small' : size s' ≤ bound)
    (same : events.foldl note s = others.foldl note s') : s = s' ∧ events = others := by
  induction events using List.reverseRecOn generalizing others with
  | nil =>
    cases others using List.reverseRecOn with
    | nil => exact ⟨same, rfl⟩
    | append_singleton others last =>
      rw [foldl_nil, foldl_concat] at same
      have beyond := notes.beyond (others.foldl note s') last
      rw [← same] at beyond
      omega
  | append_singleton events last ih =>
    cases others using List.reverseRecOn with
    | nil =>
      rw [foldl_nil, foldl_concat] at same
      have beyond := notes.beyond (events.foldl note s) last
      rw [same] at beyond
      omega
    | append_singleton others last' =>
      rw [foldl_concat, foldl_concat] at same
      obtain ⟨earlier, rfl⟩ := notes.injective _ _ _ _ same
      obtain ⟨start, rfl⟩ := ih earlier
      exact ⟨start, rfl⟩

/-- The states on the way through a log are of bounded size. -/
theorem exists_bound (size : σ → Nat) (apply : σ → ε → σ) (events : List ε) (s : σ) :
    ∃ bound, ∀ begun, begun <+: events → size (begun.foldl apply s) ≤ bound := by
  induction events using List.reverseRecOn with
  | nil =>
    refine ⟨size s, fun begun within => ?_⟩
    rw [prefix_nil.mp within, foldl_nil]
  | append_singleton events last ih =>
    obtain ⟨bound, within⟩ := ih
    refine ⟨max bound (size ((events ++ [last]).foldl apply s)), fun begun begins => ?_⟩
    rcases prefix_concat_iff.mp begins with rfl | earlier
    · exact Nat.le_max_right _ _
    · exact Nat.le_trans (within begun earlier) (Nat.le_max_left _ _)

section Apart

variable (apply : σ → ε → σ) (old : ε → Prop) [DecidablePred old] (covered : List ε) (start : σ)

open Classical in
/-- Goes through the covered events as `apply` does, and takes notes otherwise. -/
noncomputable def divert (note : σ → ε → σ) (s : σ) (e : ε) : σ :=
  if old e ∧ ∃ begun, begun <+: covered ∧ s = begun.foldl apply start then apply s e else note s e

variable {apply old covered start}

theorem divert_covered {begun : List ε} (begins : begun <+: covered) (all : ∀ e ∈ begun, old e) :
    begun.foldl (divert apply old covered start note) start = begun.foldl apply start := by
  induction begun using List.reverseRecOn with
  | nil => rfl
  | append_singleton begun last ih =>
    have earlier := (prefix_append begun [last]).trans begins
    have same := ih earlier fun e mem => all e (mem_append_left _ mem)
    rw [foldl_concat, foldl_concat, same, divert, if_pos]
    exact ⟨all last (mem_append_right _ mem_cons_self), begun, earlier, rfl⟩

/-- Once a note is taken, notes are taken. -/
theorem divert_beyond (notes : Notes size bound note)
    (within : ∀ begun, begun <+: covered → size (begun.foldl apply start) ≤ bound)
    (events : List ε) {s : σ} (beyond : bound < size s) :
    events.foldl (divert apply old covered start note) s = events.foldl note s := by
  induction events generalizing s with
  | nil => rfl
  | cons e events ih =>
    have step : divert apply old covered start note s e = note s e := by
      rw [divert, if_neg]
      rintro ⟨-, begun, begins, rfl⟩
      have small := within begun begins
      omega
    rw [foldl_cons, foldl_cons, step]
    exact ih (notes.beyond s e)

theorem divert_fresh (notes : Notes size bound note)
    (within : ∀ begun, begun <+: covered → size (begun.foldl apply start) ≤ bound)
    {events : List ε} (fresh : ∀ e ∈ events.head?, ¬ old e) (s : σ) :
    events.foldl (divert apply old covered start note) s = events.foldl note s := by
  cases events with
  | nil => rfl
  | cons e events =>
    have step : divert apply old covered start note s e = note s e := by
      rw [divert, if_neg]
      exact fun both => fresh e rfl both.1
    rw [foldl_cons, foldl_cons, step]
    exact divert_beyond notes within events (notes.beyond s e)

end Apart

variable {old : ε → Prop} [DecidablePred old] {log kept : List ε} {start snapshot : σ}

/-- A log that is its old part and then the kept events is folded by way of the snapshot. -/
theorem foldl_of_eq {apply : σ → ε → σ} (run : (log.filter old).foldl apply start = snapshot)
    (eq : log = log.filter old ++ kept) : log.foldl apply start = kept.foldl apply snapshot := by
  rw [eq, foldl_append, run]

/-- Whatever the events do, given that the old ones lead to the snapshot: the kept events take
the snapshot to where the log leads, exactly if the log is the old events and then these. -/
theorem compacts_iff {apply : σ → ε → σ} (run : (log.filter old).foldl apply start = snapshot)
    (fresh : ∀ e ∈ kept, ¬ old e) (noted : ∀ bound, ∃ note : σ → ε → σ, Notes size bound note) :
    (∀ apply : σ → ε → σ, (log.filter old).foldl apply start = snapshot →
        log.foldl apply start = kept.foldl apply snapshot) ↔ log = log.filter old ++ kept := by
  refine ⟨fun all => ?_, fun eq apply run => foldl_of_eq run eq⟩
  obtain ⟨bound, within⟩ := exists_bound size apply (log.filter old) start
  obtain ⟨note, notes⟩ := noted bound
  -- The log up to its first event that is not old, and what follows that.
  obtain ⟨first, others, split, allOld, stops⟩ : ∃ first others, log = first ++ others ∧
      (∀ e ∈ first, old e) ∧ ∀ e ∈ others.head?, ¬ old e := by
    refine ⟨log.takeWhile old, log.dropWhile old, takeWhile_append_dropWhile.symm, ?_, ?_⟩
    · intro e mem
      have passed := mem_takeWhile_imp mem
      exact of_decide_eq_true passed
    · intro e head
      have stopped := head?_dropWhile_not (p := fun e => decide (old e)) log
      rw [Option.mem_def.mp head] at stopped
      exact of_decide_eq_false stopped
  subst split
  have filtered : (first ++ others).filter old = first ++ others.filter old := by
    rw [filter_append, filter_eq_self.mpr fun e mem => decide_eq_true (allOld e mem)]
  have begins : first <+: (first ++ others).filter old := by
    rw [filtered]
    exact prefix_append _ _
  have reaches : ((first ++ others).filter old).foldl
      (divert apply old ((first ++ others).filter old) start note) start = snapshot := by
    rw [divert_covered prefix_rfl fun e mem => of_decide_eq_true (mem_filter.mp mem).2,
      run]
  have same := all _ reaches
  rw [foldl_append, divert_covered begins allOld, divert_fresh notes within stops,
    divert_fresh notes within fun e head => fresh e (mem_of_head? head)] at same
  have final := within _ prefix_rfl
  rw [run] at final
  obtain ⟨-, rest⟩ := notes.foldl_injective (within first begins) final same
  subst rest
  rw [filtered, filter_eq_nil_iff.mpr fun e mem old => fresh e mem (of_decide_eq_true old),
    append_nil]

end Compaction

end Terlan.Lib
