/-
  The order in which interning comes to continuations. The same depth-first search without any
  merging lists the identities as their continuations are finished; interning walks with it, and
  an alias always stands for a continuation that was finished earlier.
-/
import Terlan.NativeIr.Interchange

namespace Terlan.NativeIr

open List Function

variable {δ : Type}

/-! ## The walk -/

/-- Finished identities, the latest first. -/
structure Walk where
  states : Nat → Visit
  finished : List Nat

def Walk.start : Walk := ⟨fun _ => .unseen, []⟩

def Walk.enter (w : Walk) (index : Nat) : Walk :=
  { w with states := Function.update w.states index .entered }

def Walk.finish (w : Walk) (index id : Nat) : Walk :=
  ⟨Function.update w.states index .finished, id :: w.finished⟩

section walk

variable (table : List (NativeContinuation δ))

def Walk.visit (w : Walk) (walk : Nat → Walk → Option Walk) (reference : Nat) : Option Walk :=
  match table.findIdx? (·.id = reference) with
  | some dependency => walk dependency w
  | none => some w

def walkContinuation : Nat → Nat → Walk → Option Walk
  | 0, _, _ => none
  | fuel + 1, index, w =>
    match w.states index, table[index]? with
    | .unseen, some continuation => do
      let w ← (dependencies continuation.body).foldlM
        (fun w reference => w.visit table (walkContinuation fuel) reference) (w.enter index)
      some (w.finish index continuation.id)
    | _, _ => some w

def walkContinuations : Option Walk :=
  (List.range table.length).reverse.foldlM
    (fun w index => walkContinuation table (table.length + 1) index w) .start

/-- The search finishes the first identity before the second. -/
def FinishedBefore (first second : Nat) : Prop :=
  ∃ w, walkContinuations table = some w ∧ [second, first].Sublist w.finished

end walk

theorem sublist_pair_asymm {l : List Nat} (nodup : l.Nodup) {a b : Nat} (ab : [a, b].Sublist l) :
    ¬ [b, a].Sublist l := by
  intro ba
  induction l with
  | nil => exact absurd ab (by simp)
  | cons x l ih =>
    obtain ⟨notIn, rest⟩ := nodup_cons.mp nodup
    cases ab with
    | cons _ ab =>
      cases ba with
      | cons _ ba => exact ih rest ab ba
      | cons_cons _ _ => exact notIn (ab.subset (by simp))
    | cons_cons _ inner =>
      cases ba with
      | cons _ ba => exact notIn (ba.subset (by simp))
      | cons_cons _ _ => exact notIn (inner.subset (by simp))

/-! ## Interning walks in this order -/

section lockstep

variable {program : NativeProgram δ} {s s' : Interning δ} {w w' : Walk}

structure Lockstep (program : NativeProgram δ) (s : Interning δ) (w : Walk) : Prop where
  interns : Interns program.role program.continuations s
  states : s.states = w.states
  untouched : ∀ (i : Nat) (t : NativeContinuation δ), program.continuations[i]? = some t →
    s.states i ≠ .finished → s.continuations[i]? = some t
  listed : ∀ (i : Nat) (t : NativeContinuation δ), program.continuations[i]? = some t →
    (t.id ∈ w.finished ↔ s.states i = .finished)
  nodup : w.finished.Nodup
  ordered : ∀ id next, s.aliases.lookup id = some next → [id, next].Sublist w.finished

theorem lockstep_start : Lockstep program (.start program.continuations) .start where
  interns := interns_start
  states := rfl
  untouched := fun _ _ isTable _ => isTable
  listed := fun _ _ _ => ⟨fun mem => absurd mem not_mem_nil, fun finished => absurd finished nofun⟩
  nodup := nodup_nil
  ordered := fun _ _ found => absurd found nofun

theorem Lockstep.enter (lockstep : Lockstep program s w) {index : Nat}
    (unseen : s.states index = .unseen) : Lockstep program (s.enter index) (w.enter index) := by
  have kept := finished_enter unseen
  refine ⟨lockstep.interns.enter unseen, ?_, fun i t isTable notFinished => ?_, fun i t isTable => ?_,
    lockstep.nodup, lockstep.ordered⟩
  · show Function.update s.states index .entered = Function.update w.states index .entered
    rw [lockstep.states]
  · exact lockstep.untouched i t isTable fun finished => notFinished ((kept i).mpr finished)
  · rw [kept]
    exact lockstep.listed i t isTable

variable [DecidableEq δ]
  {fingerprint : ContinuationProtocolRole → List NativeType → NativeType → NativeExpr δ → Nat}

/-- What is found as an alias's target was finished before. -/
theorem Lockstep.existing (lockstep : Lockstep program s w) {index : Nat} {t existing : NativeContinuation δ}
    (entered : s.states index = .entered)
    (found : (s.place index (t.rewrite s.aliases)).existing fingerprint program.role
      (t.rewrite s.aliases) = some existing) : existing.id ∈ w.finished := by
  obtain ⟨j, u, _, uj, finished, _, _, rfl, _⟩ := lockstep.interns.of_existing entered found
  exact (lockstep.listed j u uj).mpr finished

theorem Lockstep.finish (lockstep : Lockstep program s w) (distinct : program.ids.Nodup) {index : Nat}
    {t : NativeContinuation δ} (isTable : program.continuations[index]? = some t)
    (entered : s.states index = .entered) :
    Lockstep program (s.finish fingerprint program.role index) (w.finish index t.id) := by
  have notFinished : s.states index ≠ .finished := by rw [entered]; exact nofun
  have stands := lockstep.untouched index t isTable notFinished
  have interns : Interns program.role program.continuations (s.finish fingerprint program.role index) :=
    lockstep.interns.finish distinct entered
  have states : (s.finish fingerprint program.role index).states =
      Function.update s.states index .finished := by
    unfold Interning.finish Interning.settle
    rw [stands]
    simp only []
    split
    · rfl
    · rfl
  have others : ∀ i, i ≠ index →
      (s.finish fingerprint program.role index).continuations[i]? = s.continuations[i]? := by
    intro i other
    unfold Interning.finish Interning.settle
    rw [stands]
    simp only []
    split
    · exact getElem?_set_ne (Ne.symm other)
    · exact getElem?_set_ne (Ne.symm other)
  refine ⟨interns, ?_, fun i u ui open' => ?_, fun i u ui => ?_, ?_, fun id next found => ?_⟩
  · rw [states, lockstep.states]
    rfl
  · rw [states] at open'
    have other : i ≠ index := by
      rintro rfl
      exact open' (update_self _ _ _)
    rw [update_of_ne other] at open'
    rw [others i other, lockstep.untouched i u ui open']
  · rw [states, finished_place]
    show u.id ∈ t.id :: w.finished ↔ _
    rw [mem_cons, lockstep.listed i u ui]
    refine or_congr_left ⟨fun same => index_unique distinct ui isTable same, ?_⟩
    rintro rfl
    cases isTable.symm.trans ui
    rfl
  · refine nodup_cons.mpr ⟨fun mem => ?_, lockstep.nodup⟩
    exact notFinished ((lockstep.listed index t isTable).mp mem)
  · show [id, next].Sublist (t.id :: w.finished)
    unfold Interning.finish Interning.settle at found
    rw [stands] at found
    simp only [] at found
    split at found
    · rename_i existing isExisting
      rw [show ((s.place index (t.rewrite s.aliases)).addAlias (t.rewrite s.aliases).id
        existing.id).aliases = (t.id, existing.id) :: s.aliases from rfl, lookup_cons_eq] at found
      split at found
      · rename_i isSource
        cases found
        rw [isSource]
        exact .cons_cons _ (singleton_sublist.mpr (lockstep.existing entered isExisting))
      · exact .cons _ (lockstep.ordered id next found)
    · exact .cons _ (lockstep.ordered id next found)

omit [DecidableEq δ] in
theorem Lockstep.indexOf (lockstep : Lockstep program s w) (distinct : program.ids.Nodup)
    (reference : Nat) :
    s.indexOf reference = program.continuations.findIdx? (·.id = reference) := by
  have start : program.continuations.findIdx? (·.id = reference) =
      (Interning.start program.continuations).indexOf reference := rfl
  rw [start]
  refine Option.ext fun j => ?_
  rw [indexOf_iff lockstep.interns distinct, indexOf_iff interns_start distinct]

/-- Two loops whose steps go together. -/
theorem foldlM_together {σ τ α : Type} {f : σ → α → Option σ} {g : τ → α → Option τ}
    {L : σ → τ → Prop} (step : ∀ x y a x', L x y → f x a = some x' → ∃ y', g y a = some y' ∧ L x' y')
    {l : List α} {x x' : σ} {y : τ} (together : L x y) (run : l.foldlM f x = some x') :
    ∃ y', l.foldlM g y = some y' ∧ L x' y' := by
  induction l generalizing x y with
  | nil =>
    cases run
    exact ⟨y, rfl, together⟩
  | cons a l ih =>
    rw [foldlM_cons] at run
    obtain ⟨z, first, rest⟩ := Option.bind_eq_some_iff.mp run
    obtain ⟨z', first', next⟩ := step x y a z together first
    obtain ⟨y', rest', last⟩ := ih next rest
    exact ⟨y', by rw [foldlM_cons, first']; exact rest', last⟩

section

variable (distinct : program.ids.Nodup)
include distinct

theorem Lockstep.search (fuel index : Nat) (lockstep : Lockstep program s w)
    (run : internContinuation fingerprint program.role fuel index s = some s') :
    ∃ w', walkContinuation program.continuations fuel index w = some w' ∧ Lockstep program s' w' := by
  induction fuel generalizing index s s' w with
  | zero => cases run
  | succ fuel ih =>
    rw [internContinuation] at run
    rw [walkContinuation, ← lockstep.states]
    split at run
    · rename_i continuation unseen stands
      obtain ⟨inner, folded, finished⟩ := Option.bind_eq_some_iff.mp run
      cases finished
      obtain ⟨t, isTable⟩ : ∃ t, program.continuations[index]? = some t := by
        have bound := (List.getElem?_eq_some_iff.mp stands).1
        rw [lockstep.interns.length] at bound
        exact ⟨_, getElem?_eq_getElem bound⟩
      cases stands.symm.trans (lockstep.untouched index t isTable (by simp [unseen]))
      have marked : (s.enter index).states index = .entered := update_self _ _ _
      obtain ⟨w', walked, inStep⟩ := foldlM_together
        (f := fun s reference => s.visit (internContinuation fingerprint program.role fuel) reference)
        (g := fun w reference => w.visit program.continuations
          (walkContinuation program.continuations fuel) reference)
        (L := fun x y => Lockstep program x y ∧ Persists (s.enter index) x)
        (fun x y reference x' keeps visited => by
          obtain ⟨inStep, persists⟩ := keeps
          unfold Interning.visit at visited
          unfold Walk.visit
          rw [← inStep.indexOf distinct]
          cases dependency : x.indexOf reference with
          | some d =>
            rw [dependency] at visited
            obtain ⟨y', walked, next⟩ := ih d inStep visited
            exact ⟨y', walked, next,
              persists.trans (Interns.search distinct _ _ inStep.interns visited).2⟩
          | none =>
            rw [dependency] at visited
            cases visited
            exact ⟨y, rfl, inStep, persists⟩) ⟨lockstep.enter unseen, fun _ _ => rfl⟩ folded
      have entered : inner.states index = .entered := by
        rw [inStep.2 index (by simp [marked]), marked]
      refine ⟨_, ?_, inStep.1.finish distinct isTable entered⟩
      rw [unseen, isTable]
      exact Option.bind_eq_some_iff.mpr ⟨w', walked, rfl⟩
    · rename_i notOpen
      cases run
      refine ⟨w, ?_, lockstep⟩
      split
      · rename_i continuation unseen isTable
        exact absurd (lockstep.untouched index continuation isTable (by simp [unseen]))
          (notOpen _ unseen)
      · rfl

section

variable (run : internContinuations fingerprint program.role program.continuations = some s')
include run

theorem lockstep_of_internContinuations :
    ∃ w, walkContinuations program.continuations = some w ∧ Lockstep program s' w :=
  foldlM_together (L := Lockstep program)
    (fun _ _ index _ inStep visited => Lockstep.search distinct _ index inStep visited) lockstep_start run

/-- An alias stands for a continuation that was finished before its own. -/
theorem finishedBefore_of_alias {id next : Nat} (found : s'.aliases.lookup id = some next) :
    FinishedBefore program.continuations next id := by
  obtain ⟨w, walked, lockstep⟩ := lockstep_of_internContinuations distinct run
  exact ⟨w, walked, lockstep.ordered id next found⟩

theorem finishedBefore_asymm {a b : Nat} (first : FinishedBefore program.continuations a b) :
    ¬ FinishedBefore program.continuations b a := by
  obtain ⟨w, walked, lockstep⟩ := lockstep_of_internContinuations distinct run
  obtain ⟨v, walkedV, ab⟩ := first
  rintro ⟨u, walkedU, ba⟩
  cases walked.symm.trans walkedV
  cases walked.symm.trans walkedU
  exact sublist_pair_asymm lockstep.nodup ab ba

end

end

end lockstep

end Terlan.NativeIr
