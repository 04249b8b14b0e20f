/-
  Which continuations interning merges. Two identities are interchangeable when some renaming
  gives them one name and merges only continuations that are equal up to it. The aliases of
  interning are such a renaming, and when no continuation leads back to itself they merge
  everything that is interchangeable.
-/
import Terlan.NativeIr.Interning

namespace Terlan.NativeIr

open List Function

variable {δ : Type}

/-! ## Interchangeable identities -/

section interchangeable

variable (program : NativeProgram δ)

/-- A renaming of the continuations of a program that gives one name only to equal ones. -/
structure Congruence (rename : Nat → Nat) : Prop where
  outside : ∀ id ∉ program.ids, rename id = id
  inside : ∀ id ∈ program.ids, rename id ∈ program.ids
  merges : ∀ t ∈ program.continuations, ∀ u ∈ program.continuations, rename t.id = rename u.id →
    t.Merges program.role rename u

def Interchangeable (i j : Nat) : Prop :=
  ∃ rename, Congruence program rename ∧ rename i = rename j

/-- The body of the first refers to the second, which is a continuation. -/
def Refers (i j : Nat) : Prop :=
  j ∈ program.ids ∧ ∃ t ∈ program.continuations, t.id = i ∧ j ∈ continuationReferences t.body

/-- No continuation leads back to itself. -/
def Acyclic : Prop := ∀ id, ¬ Relation.TransGen (Refers program) id id

end interchangeable

section merges

variable {roles : Nat → ContinuationProtocolRole} {rename : Nat → Nat} {t u v : NativeContinuation δ}

theorem NativeContinuation.Merges.refl : t.Merges roles rename t := ⟨rfl, rfl, rfl, rfl⟩

theorem NativeContinuation.Merges.symm (merges : t.Merges roles rename u) : u.Merges roles rename t :=
  ⟨merges.params.symm, merges.returnType.symm, merges.role.symm, merges.body.symm⟩

theorem NativeContinuation.Merges.trans (first : t.Merges roles rename u)
    (second : u.Merges roles rename v) : t.Merges roles rename v :=
  ⟨first.params.trans second.params, first.returnType.trans second.returnType,
    first.role.trans second.role, first.body.trans second.body⟩

/-- Bodies that are equal up to one renaming are equal up to another that identifies at least
as much of what they refer to. -/
theorem rewriteContinuationIds_coarsen {f g : Nat → Nat} {a b : NativeExpr δ}
    (coarser : ∀ x ∈ continuationReferences a ++ continuationReferences b,
      ∀ y ∈ continuationReferences a ++ continuationReferences b, f x = f y → g x = g y)
    (same : rewriteContinuationIds f a = rewriteContinuationIds f b) :
    rewriteContinuationIds g a = rewriteContinuationIds g b := by
  classical
  let h : Nat → Nat := fun z =>
    if found : ∃ x ∈ continuationReferences a ++ continuationReferences b, f x = z then
      g (Classical.choose found) else z
  have factors : ∀ x ∈ continuationReferences a ++ continuationReferences b, g x = (h ∘ f) x := by
    intro x mem
    have found : ∃ y ∈ continuationReferences a ++ continuationReferences b, f y = f x := ⟨x, mem, rfl⟩
    simp only [h, comp_apply, dif_pos found]
    obtain ⟨chosen, sameName⟩ := Classical.choose_spec found
    exact coarser x mem _ chosen sameName.symm
  rw [rewriteContinuationIds_congr fun x mem => factors x (mem_append_left _ mem),
    rewriteContinuationIds_congr fun x mem => factors x (mem_append_right _ mem),
    ← rewriteContinuationIds_comp, same, rewriteContinuationIds_comp]

end merges

/-! ## Aliases are a congruence -/

section aliases

variable {program : NativeProgram δ} {s : Interning δ}

/-- What an identity of the table stands for. -/
theorem Interns.representative {roles : Nat → ContinuationProtocolRole}
    {table : List (NativeContinuation δ)} (interns : Interns roles table s)
    (distinct : (table.map (·.id)).Nodup) {i : Nat} {t : NativeContinuation δ}
    (isTable : table[i]? = some t) :
    ∃ (j : Nat) (u : NativeContinuation δ), table[j]? = some u ∧ u.id = canonicalId s.aliases t.id ∧
      t.Merges roles (canonicalId s.aliases) u ∧ s.aliases.lookup u.id = none ∧
        (s.states i = .finished → s.states j = .finished) := by
  cases found : s.aliases.lookup t.id with
  | none =>
    exact ⟨i, t, isTable, (canonicalId_of_none interns.flat found).symm, .refl, found, id⟩
  | some next =>
    obtain ⟨k, j, v, u, vk, isId, _, uj, isNext, finished, merges⟩ := interns.aliased t.id next found
    cases index_unique distinct isTable vk isId.symm
    cases isTable.symm.trans vk
    refine ⟨j, u, uj, ?_, merges, ?_, fun _ => finished⟩
    · rw [canonicalId_of_lookup interns.flat found, isNext]
    · rw [isNext]
      exact interns.flat t.id next found

theorem Interns.congruence (interns : Interns program.role program.continuations s)
    (distinct : program.ids.Nodup) : Congruence program (canonicalId s.aliases) where
  outside := by
    intro id notIn
    cases found : s.aliases.lookup id with
    | none => exact canonicalId_of_none interns.flat found
    | some next =>
      obtain ⟨i, _, t, _, ti, isId, _⟩ := interns.aliased id next found
      exact absurd (mem_map.mpr ⟨t, mem_of_getElem? ti, isId⟩) notIn
  inside := by
    intro id isIn
    obtain ⟨t, mem, isId⟩ := mem_map.mp isIn
    obtain ⟨i, ti⟩ := mem_iff_getElem?.mp mem
    obtain ⟨j, u, uj, isCanonical, _⟩ := interns.representative distinct ti
    rw [← isId, ← isCanonical]
    exact mem_map.mpr ⟨u, mem_of_getElem? uj, rfl⟩
  merges := by
    intro t memT u memU same
    obtain ⟨i, ti⟩ := mem_iff_getElem?.mp memT
    obtain ⟨j, uj⟩ := mem_iff_getElem?.mp memU
    obtain ⟨k, v, vk, isCanonical, merges, _⟩ := interns.representative distinct ti
    obtain ⟨l, w, wl, isCanonical', merges', _⟩ := interns.representative distinct uj
    have one : k = l := index_unique distinct vk wl (by rw [isCanonical, isCanonical', same])
    subst one
    cases vk.symm.trans wl
    exact merges.trans merges'.symm

end aliases

/-! ## Everything interchangeable is merged -/

section complete

variable
  (fingerprint : ContinuationProtocolRole → List NativeType → NativeType → NativeExpr δ → Nat)
  (program : NativeProgram δ) (rename : Nat → Nat)

/-- What the search keeps besides, where no continuation leads back to itself: a finished
continuation refers to finished ones, so later aliases leave its body alone. -/
structure Complete (s : Interning δ) : Prop where
  closed : ∀ (i j : Nat) (t u : NativeContinuation δ), program.continuations[i]? = some t →
    s.states i = .finished → program.continuations[j]? = some u →
      u.id ∈ continuationReferences t.body → s.states j = .finished
  exact : ∀ (i : Nat) (t : NativeContinuation δ), program.continuations[i]? = some t →
    s.states i = .finished → s.continuations[i]? = some (t.rewrite s.aliases)
  untouched : ∀ (i : Nat) (t : NativeContinuation δ), program.continuations[i]? = some t →
    s.states i ≠ .finished → s.continuations[i]? = some t
  joined : ∀ (i j : Nat) (t u : NativeContinuation δ), program.continuations[i]? = some t →
    program.continuations[j]? = some u → s.states i = .finished → s.states j = .finished →
      rename t.id = rename u.id → canonicalId s.aliases t.id = canonicalId s.aliases u.id
  listed : ∀ (i : Nat) (t : NativeContinuation δ), program.continuations[i]? = some t →
    s.states i = .finished → s.aliases.lookup t.id = none →
      i ∈ s.canonical ((t.rewrite s.aliases).print fingerprint program.role)
  different : ∀ (i j : Nat) (t u : NativeContinuation δ), program.continuations[i]? = some t →
    program.continuations[j]? = some u → s.states i = .finished → s.states j = .finished →
      s.aliases.lookup t.id = none → s.aliases.lookup u.id = none →
        t.Merges program.role (canonicalId s.aliases) u → i = j

end complete

section completes

variable
  {fingerprint : ContinuationProtocolRole → List NativeType → NativeType → NativeExpr δ → Nat}
  {program : NativeProgram δ} {rename : Nat → Nat} {s : Interning δ}

theorem complete_start : Complete fingerprint program rename (.start program.continuations) where
  closed := fun _ _ _ _ _ finished => absurd finished nofun
  exact := fun _ _ _ finished => absurd finished nofun
  untouched := fun _ _ isTable _ => isTable
  joined := fun _ _ _ _ _ _ finished => absurd finished nofun
  listed := fun _ _ _ finished => absurd finished nofun
  different := fun _ _ _ _ _ _ finished => absurd finished nofun

theorem Complete.enter (complete : Complete fingerprint program rename s) {index : Nat}
    (unseen : s.states index = .unseen) : Complete fingerprint program rename (s.enter index) := by
  have kept := finished_enter unseen
  constructor
  · intro i j t u ti finished uj refers
    exact (kept j).mpr (complete.closed i j t u ti ((kept i).mp finished) uj refers)
  · intro i t ti finished
    exact complete.exact i t ti ((kept i).mp finished)
  · intro i t ti notFinished
    exact complete.untouched i t ti fun finished => notFinished ((kept i).mpr finished)
  · intro i j t u ti uj finished finished' same
    exact complete.joined i j t u ti uj ((kept i).mp finished) ((kept j).mp finished') same
  · intro i t ti finished free
    exact complete.listed i t ti ((kept i).mp finished) free
  · intro i j t u ti uj finished finished' free free' merges
    exact complete.different i j t u ti uj ((kept i).mp finished) ((kept j).mp finished') free free' merges

/-- Continuations whose references are all finished merge when one renaming joins them. -/
theorem Complete.merges (complete : Complete fingerprint program rename s)
    (congruence : Congruence program rename) {t u : NativeContinuation δ}
    (memT : t ∈ program.continuations) (memU : u ∈ program.continuations)
    (ready : ∀ (k : Nat) (v : NativeContinuation δ), program.continuations[k]? = some v →
      v.id ∈ continuationReferences t.body ++ continuationReferences u.body → s.states k = .finished)
    (same : rename t.id = rename u.id) : t.Merges program.role (canonicalId s.aliases) u := by
  obtain ⟨params, returnType, role, body⟩ := congruence.merges t memT u memU same
  refine ⟨params, returnType, role, rewriteContinuationIds_coarsen (fun x memX y memY sameName => ?_) body⟩
  by_cases inX : x ∈ program.ids
  · have inY : y ∈ program.ids := by
      by_contra outY
      rw [congruence.outside y outY] at sameName
      exact outY (sameName ▸ congruence.inside x inX)
    obtain ⟨v, memV, rfl⟩ := mem_map.mp inX
    obtain ⟨w, memW, rfl⟩ := mem_map.mp inY
    obtain ⟨k, vk⟩ := mem_iff_getElem?.mp memV
    obtain ⟨l, wl⟩ := mem_iff_getElem?.mp memW
    exact complete.joined k l v w vk wl (ready k v vk memX) (ready l w wl memY) sameName
  · have outY : y ∉ program.ids := by
      intro inY
      rw [congruence.outside x inX] at sameName
      exact inX (sameName ▸ congruence.inside y inY)
    rw [congruence.outside x inX, congruence.outside y outY] at sameName
    rw [sameName]

section finish

variable [DecidableEq δ] {index : Nat} {t : NativeContinuation δ}

section

variable (complete : Complete fingerprint program rename s)
include complete

/-- A finished continuation is found for another when they merge. -/
theorem Complete.matches_iff
    (entered : s.states index = .entered) {j : Nat} {u : NativeContinuation δ}
    (uj : program.continuations[j]? = some u) (finished : s.states j = .finished) :
    (s.place index (t.rewrite s.aliases)).matches program.role (t.rewrite s.aliases) j = true ↔
      u.Merges program.role (canonicalId s.aliases) t := by
  have elsewhere : index ≠ j := by
    rintro rfl
    rw [entered] at finished
    exact absurd finished nofun
  have stands : (s.place index (t.rewrite s.aliases)).continuations[j]? = some (u.rewrite s.aliases) :=
    (getElem?_set_ne elsewhere).trans (complete.exact j u uj finished)
  simp only [Interning.matches, stands, decide_eq_true_eq]
  constructor
  · rintro ⟨params, returnType, body, role⟩
    exact ⟨params, returnType, role, body⟩
  · rintro ⟨params, returnType, role, body⟩
    exact ⟨params, returnType, body, role⟩

/-- What is found is a finished continuation that is no alias and merges. -/
theorem Complete.of_existing
    (interns : Interns program.role program.continuations s) (entered : s.states index = .entered)
    {existing : NativeContinuation δ}
    (found : (s.place index (t.rewrite s.aliases)).existing fingerprint program.role
      (t.rewrite s.aliases) = some existing) :
    ∃ (j : Nat) (u : NativeContinuation δ), program.continuations[j]? = some u ∧
      s.states j = .finished ∧ s.aliases.lookup u.id = none ∧ existing.id = u.id ∧
        u.Merges program.role (canonicalId s.aliases) t := by
  obtain ⟨j, u, _, uj, finished, free, isExisting, _, _, params, returnType, body, role⟩ :=
    interns.of_existing entered found
  cases isExisting.symm.trans (complete.exact j u uj finished)
  exact ⟨j, u, uj, finished, free, rfl, params, returnType, role, body⟩

/-- When nothing is found, no finished continuation merges. -/
theorem Complete.of_not_existing
    (interns : Interns program.role program.continuations s) (distinct : program.ids.Nodup)
    (entered : s.states index = .entered)
    (none : (s.place index (t.rewrite s.aliases)).existing fingerprint program.role
      (t.rewrite s.aliases) = none) {j : Nat} {u : NativeContinuation δ}
    (uj : program.continuations[j]? = some u) (finished : s.states j = .finished) :
    ¬ u.Merges program.role (canonicalId s.aliases) t := by
  intro merges
  obtain ⟨k, v, vk, _, merges', free, finishes⟩ := interns.representative distinct uj
  have alike := merges'.symm.trans merges
  have samePrint : (v.rewrite s.aliases).print fingerprint program.role =
      (t.rewrite s.aliases).print fingerprint program.role := by
    obtain ⟨params, returnType, role, body⟩ := alike
    simp only [NativeContinuation.print, NativeContinuation.rewrite, params, returnType, role, body]
  have listed := complete.listed k v vk (finishes finished) free
  rw [samePrint] at listed
  have matched := (complete.matches_iff (t := t) entered vk (finishes finished)).mpr alike
  cases first : ((s.place index (t.rewrite s.aliases)).canonical
      ((t.rewrite s.aliases).print fingerprint program.role)).find?
        ((s.place index (t.rewrite s.aliases)).matches program.role (t.rewrite s.aliases)) with
  | none => exact find?_eq_none.mp first k listed matched
  | some l =>
    have matched := find?_some first
    unfold Interning.existing at none
    rw [first, Option.bind_some] at none
    simp [Interning.matches, none] at matched

end

omit [DecidableEq δ] in
/-- The facts about bodies, after a continuation took its place and when aliases leave finished
bodies alone. -/
theorem Complete.place (complete : Complete fingerprint program rename s)
    (bound : index < s.continuations.length) (isTable : program.continuations[index]? = some t)
    (ready : ∀ (j : Nat) (u : NativeContinuation δ), program.continuations[j]? = some u →
      u.id ∈ continuationReferences t.body → s.states j = .finished)
    {after : Interning δ} (continuations : after.continuations = s.continuations.set index (t.rewrite s.aliases))
    (states : after.states = Function.update s.states index .finished)
    (sameRewrite : ∀ (i : Nat) (v : NativeContinuation δ), program.continuations[i]? = some v →
      i = index ∨ s.states i = .finished → v.rewrite after.aliases = v.rewrite s.aliases)
    (joined : ∀ (i j : Nat) (t u : NativeContinuation δ), program.continuations[i]? = some t →
      program.continuations[j]? = some u → after.states i = .finished → after.states j = .finished →
        rename t.id = rename u.id → canonicalId after.aliases t.id = canonicalId after.aliases u.id)
    (listed : ∀ (i : Nat) (v : NativeContinuation δ), program.continuations[i]? = some v →
      after.states i = .finished → after.aliases.lookup v.id = none →
        i ∈ after.canonical ((v.rewrite s.aliases).print fingerprint program.role))
    (different : ∀ (i j : Nat) (v w : NativeContinuation δ), program.continuations[i]? = some v →
      program.continuations[j]? = some w → after.states i = .finished → after.states j = .finished →
        after.aliases.lookup v.id = none → after.aliases.lookup w.id = none →
          v.Merges program.role (canonicalId s.aliases) w → i = j) :
    Complete fingerprint program rename after where
  closed := by
    intro i j v u vi finished uj refers
    rw [states, finished_place] at finished ⊢
    rcases finished with rfl | finished
    · cases isTable.symm.trans vi
      exact .inr (ready j u uj refers)
    · exact .inr (complete.closed i j v u vi finished uj refers)
  exact := by
    intro i v vi finished
    rw [states, finished_place] at finished
    rw [continuations, sameRewrite i v vi finished]
    rcases finished with rfl | finished
    · cases isTable.symm.trans vi
      exact getElem?_set_self bound
    by_cases here : i = index
    · subst here
      cases isTable.symm.trans vi
      exact getElem?_set_self bound
    · exact (getElem?_set_ne (Ne.symm here)).trans (complete.exact i v vi finished)
  untouched := by
    intro i v vi notFinished
    rw [states, Ne, finished_place, not_or] at notFinished
    rw [continuations]
    exact (getElem?_set_ne (Ne.symm notFinished.1)).trans
      (complete.untouched i v vi notFinished.2)
  joined := joined
  listed := by
    intro i v vi finished free
    have finishedBefore := finished
    rw [states, finished_place] at finishedBefore
    rw [sameRewrite i v vi finishedBefore]
    exact listed i v vi finished free
  different := by
    intro i j v w vi wj finished finished' free free' merges
    have rewritten := fun k x xk (done : after.states k = .finished) =>
      sameRewrite k x xk (finished_place.mp (states ▸ done))
    have bodyV := congrArg NativeContinuation.body (rewritten i v vi finished)
    have bodyW := congrArg NativeContinuation.body (rewritten j w wj finished')
    exact different i j v w vi wj finished finished' free free'
      ⟨merges.params, merges.returnType, merges.role, bodyV.symm.trans (merges.body.trans bodyW)⟩

theorem Complete.finish (complete : Complete fingerprint program rename s)
    (interns : Interns program.role program.continuations s) (distinct : program.ids.Nodup)
    (congruence : Congruence program rename) (isTable : program.continuations[index]? = some t)
    (entered : s.states index = .entered)
    (ready : ∀ (j : Nat) (u : NativeContinuation δ), program.continuations[j]? = some u →
      u.id ∈ continuationReferences t.body → s.states j = .finished) :
    Complete fingerprint program rename (s.finish fingerprint program.role index) := by
  have notFinished : s.states index ≠ .finished := by rw [entered]; exact nofun
  have stands := complete.untouched index t isTable notFinished
  have bound := (List.getElem?_eq_some_iff.mp stands).1
  obtain ⟨free, unused⟩ := interns.unaliased distinct isTable notFinished
  -- A finished continuation that is joined with this one merges with it.
  have joins : ∀ (j : Nat) (u : NativeContinuation δ), program.continuations[j]? = some u →
      s.states j = .finished → rename t.id = rename u.id →
        t.Merges program.role (canonicalId s.aliases) u := by
    intro j u uj finished same
    refine complete.merges congruence (mem_of_getElem? isTable) (mem_of_getElem? uj)
      (fun k v vk refers => ?_) same
    rcases mem_append.mp refers with here | there
    · exact ready k v vk here
    · exact complete.closed j k u v uj finished vk there
  unfold Interning.finish
  rw [stands]
  simp only [Interning.settle]
  split
  · rename_i existing found
    obtain ⟨e, x, xe, finishedX, freeX, isExisting, alike⟩ := complete.of_existing interns entered found
    rw [isExisting]
    have fresh : Fresh s.aliases t.id x.id := by
      refine ⟨free, freeX, fun clash => ?_, unused⟩
      cases index_unique distinct isTable xe clash
      exact notFinished finishedX
    have named : ∀ id, canonicalId ((t.id, x.id) :: s.aliases) id =
        if id = t.id then x.id else canonicalId s.aliases id :=
      canonicalId_cons interns.flat fresh
    have other : ∀ (i : Nat) (v : NativeContinuation δ), program.continuations[i]? = some v →
        s.states i = .finished → v.id ≠ t.id := by
      intro i v vi finished same
      cases index_unique distinct vi isTable same
      exact notFinished finished
    have sameRewrite : ∀ (i : Nat) (v : NativeContinuation δ), program.continuations[i]? = some v →
        i = index ∨ s.states i = .finished →
          v.rewrite ((t.id, x.id) :: s.aliases) = v.rewrite s.aliases := by
      intro i v vi finished
      unfold NativeContinuation.rewrite
      rw [rewriteContinuationIds_congr fun id refers => ?_]
      rw [named, if_neg]
      rintro rfl
      rcases finished with rfl | finished
      · cases isTable.symm.trans vi
        exact notFinished (ready _ t isTable refers)
      · exact notFinished (complete.closed i index v t vi finished isTable refers)
    -- What is joined with this continuation stands for what was found.
    have standsFor : ∀ (j : Nat) (u : NativeContinuation δ), program.continuations[j]? = some u →
        s.states j = .finished → rename t.id = rename u.id → canonicalId s.aliases u.id = x.id := by
      intro j u uj finished same
      obtain ⟨k, w, wk, isCanonical, merges, freeW, finishes⟩ := interns.representative distinct uj
      have one : k = e := complete.different k e w x wk xe (finishes finished) finishedX freeW freeX
        (merges.symm.trans ((joins j u uj finished same).symm.trans alike.symm))
      subst one
      cases wk.symm.trans xe
      exact isCanonical.symm
    refine complete.place bound isTable ready rfl rfl sameRewrite ?_ ?_ ?_
    · intro i j v u vi uj finished finished' same
      show canonicalId ((t.id, x.id) :: s.aliases) v.id = canonicalId ((t.id, x.id) :: s.aliases) u.id
      rw [named, named]
      rcases finished_place.mp finished with rfl | done
      · cases isTable.symm.trans vi
        rcases finished_place.mp finished' with rfl | done'
        · cases isTable.symm.trans uj
          rfl
        · rw [if_pos rfl, if_neg (other j u uj done'), standsFor j u uj done' same]
      · rw [if_neg (other i v vi done)]
        rcases finished_place.mp finished' with rfl | done'
        · cases isTable.symm.trans uj
          rw [if_pos rfl, standsFor i v vi done same.symm]
        · rw [if_neg (other j u uj done'), complete.joined i j v u vi uj done done' same]
    · intro i v vi finished freeV
      replace freeV : ((t.id, x.id) :: s.aliases).lookup v.id = none := freeV
      rw [lookup_cons_eq] at freeV
      split at freeV
      · exact absurd freeV nofun
      rename_i elsewhere
      rcases finished_place.mp finished with rfl | done
      · cases isTable.symm.trans vi
        exact absurd rfl elsewhere
      · exact complete.listed i v vi done freeV
    · intro i j v w vi wj finished finished' freeV freeW merges
      replace freeV : ((t.id, x.id) :: s.aliases).lookup v.id = none := freeV
      replace freeW : ((t.id, x.id) :: s.aliases).lookup w.id = none := freeW
      rw [lookup_cons_eq] at freeV freeW
      split at freeV
      · exact absurd freeV nofun
      split at freeW
      · exact absurd freeW nofun
      rename_i elsewhere elsewhere'
      rcases finished_place.mp finished with rfl | done
      · cases isTable.symm.trans vi
        exact absurd rfl elsewhere
      rcases finished_place.mp finished' with rfl | done'
      · cases isTable.symm.trans wj
        exact absurd rfl elsewhere'
      exact complete.different i j v w vi wj done done' freeV freeW merges
  · rename_i none
    have alone := fun (j : Nat) (u : NativeContinuation δ)
        (uj : program.continuations[j]? = some u) (finished : s.states j = .finished) =>
      complete.of_not_existing interns distinct entered none uj finished
    refine complete.place bound isTable ready rfl rfl (fun _ _ _ _ => rfl) ?_ ?_ ?_
    · intro i j v u vi uj finished finished' same
      rcases finished_place.mp finished with rfl | done
      · cases isTable.symm.trans vi
        rcases finished_place.mp finished' with rfl | done'
        · cases isTable.symm.trans uj
          rfl
        · exact absurd (joins j u uj done' same).symm (alone j u uj done')
      · rcases finished_place.mp finished' with rfl | done'
        · cases isTable.symm.trans uj
          exact absurd (joins i v vi done same.symm).symm (alone i v vi done)
        · exact complete.joined i j v u vi uj done done' same
    · intro i v vi finished freeV
      show i ∈ Function.update s.canonical _ (s.canonical _ ++ [index])
        ((v.rewrite s.aliases).print fingerprint program.role)
      by_cases here : (v.rewrite s.aliases).print fingerprint program.role =
          (t.rewrite s.aliases).print fingerprint program.role
      · rw [here, update_self]
        rcases finished_place.mp finished with rfl | done
        · exact mem_append_right _ (mem_singleton_self i)
        · exact mem_append_left _ (here ▸ complete.listed i v vi done freeV)
      · rw [update_of_ne here]
        rcases finished_place.mp finished with rfl | done
        · cases isTable.symm.trans vi
          exact absurd rfl here
        · exact complete.listed i v vi done freeV
    · intro i j v w vi wj finished finished' freeV freeW merges
      rcases finished_place.mp finished with rfl | done
      · cases isTable.symm.trans vi
        rcases finished_place.mp finished' with rfl | done'
        · rfl
        · exact absurd merges.symm (alone j w wj done')
      · rcases finished_place.mp finished' with rfl | done'
        · cases isTable.symm.trans wj
          exact absurd merges (alone i v vi done)
        · exact complete.different i j v w vi wj done done' freeV freeW merges

end finish

/-! ## The search comes to everything -/

/-- What a loop establishes for each element and keeps, it establishes for all. -/
theorem foldlM_each {σ α : Type} {f : σ → α → Option σ} {I : σ → Prop} {D : α → σ → Prop} {l : List α}
    (step : ∀ a ∈ l, ∀ x y, f x a = some y → I x → I y ∧ D a y ∧ ∀ b, D b x → D b y) {s s' : σ}
    (run : l.foldlM f s = some s') (keeps : I s) :
    I s' ∧ (∀ a ∈ l, D a s') ∧ ∀ b, D b s → D b s' := by
  induction l generalizing s with
  | nil =>
    cases run
    exact ⟨keeps, fun _ mem => absurd mem not_mem_nil, fun _ done => done⟩
  | cons a l ih =>
    obtain ⟨here, later⟩ := forall_mem_cons.mp step
    rw [foldlM_cons] at run
    obtain ⟨t, first, rest⟩ := Option.bind_eq_some_iff.mp run
    obtain ⟨keepsNext, done, kept⟩ := here s t first keeps
    obtain ⟨keepsLast, doneRest, keptRest⟩ := ih later rest keepsNext
    exact ⟨keepsLast, forall_mem_cons.mpr ⟨keptRest a done, doneRest⟩,
      fun b before => keptRest b (kept b before)⟩

/-- The index of a continuation is found by its identity. -/
theorem indexOf_iff (interns : Interns program.role program.continuations s)
    (distinct : program.ids.Nodup) {id j : Nat} :
    s.indexOf id = some j ↔ ∃ u, program.continuations[j]? = some u ∧ u.id = id := by
  have named : ∀ (k : Nat) (bound : k < s.continuations.length),
      ∃ u, program.continuations[k]? = some u ∧ s.continuations[k].id = u.id := by
    intro k bound
    have inTable : k < program.continuations.length := interns.length ▸ bound
    have isTable := getElem?_eq_getElem inTable
    obtain ⟨body, stands, _⟩ := interns.bodies k _ isTable
    rw [getElem?_eq_getElem bound] at stands
    exact ⟨_, isTable, by rw [Option.some.inj stands]⟩
  unfold Interning.indexOf
  rw [findIdx?_eq_some_iff_getElem]
  constructor
  · rintro ⟨bound, isId, _⟩
    obtain ⟨u, isTable, sameId⟩ := named j bound
    exact ⟨u, isTable, sameId.symm.trans (of_decide_eq_true isId)⟩
  · rintro ⟨u, isTable, isId⟩
    have bound : j < s.continuations.length := by
      rw [interns.length]
      exact (List.getElem?_eq_some_iff.mp isTable).1
    obtain ⟨v, isTable', sameId⟩ := named j bound
    cases isTable.symm.trans isTable'
    refine ⟨bound, decide_eq_true (sameId.trans isId), fun k before clash => ?_⟩
    obtain ⟨w, wk, sameIdK⟩ := named k (Nat.lt_trans before bound)
    have same : w.id = u.id := sameIdK.symm.trans ((of_decide_eq_true clash).trans isId.symm)
    exact absurd (index_unique distinct wk isTable same) (Nat.ne_of_lt before)

section search

variable [DecidableEq δ] {s' : Interning δ}

theorem finish_self {index : Nat} {t : NativeContinuation δ} (stands : s.continuations[index]? = some t) :
    (s.finish fingerprint program.role index).states index = .finished := by
  unfold Interning.finish Interning.settle
  rw [stands]
  simp only []
  split
  · exact update_self _ _ _
  · exact update_self _ _ _

/-- From a continuation that everything entered leads to, the search finishes it and enters
nothing for good. -/
theorem Complete.search (distinct : program.ids.Nodup) (congruence : Congruence program rename)
    (acyclic : Acyclic program) (fuel index : Nat)
    (interns : Interns program.role program.continuations s)
    (complete : Complete fingerprint program rename s)
    (leads : ∀ (j : Nat) (v t : NativeContinuation δ), program.continuations[j]? = some v →
      s.states j = .entered → program.continuations[index]? = some t →
        Relation.TransGen (Refers program) v.id t.id)
    (run : internContinuation fingerprint program.role fuel index s = some s') :
    Complete fingerprint program rename s' ∧
      (∀ t, program.continuations[index]? = some t → s'.states index = .finished) ∧
        ∀ i, s'.states i = .entered → s.states i = .entered := by
  induction fuel generalizing index s s' with
  | zero => cases run
  | succ fuel ih =>
    rw [internContinuation] at run
    split at run
    · rename_i continuation unseen stands
      obtain ⟨inner, folded, finished⟩ := Option.bind_eq_some_iff.mp run
      cases finished
      obtain ⟨t, isTable⟩ : ∃ t, program.continuations[index]? = some t := by
        have bound := (List.getElem?_eq_some_iff.mp stands).1
        rw [interns.length] at bound
        exact ⟨_, getElem?_eq_getElem bound⟩
      have notFinished : s.states index ≠ .finished := by simp [unseen]
      cases stands.symm.trans (complete.untouched index t isTable notFinished)
      have marked : (s.enter index).states index = .entered := update_self _ _ _
      have before : ∀ i, i ≠ index → (s.enter index).states i = s.states i :=
        fun i other => update_of_ne other _ _
      have step : ∀ reference ∈ dependencies continuation.body, ∀ x y,
          x.visit (internContinuation fingerprint program.role fuel) reference = some y →
          (Interns program.role program.continuations x ∧
            Complete fingerprint program rename x ∧ Persists (s.enter index) x ∧
            ∀ i, x.states i = .entered → (s.enter index).states i = .entered) →
          (Interns program.role program.continuations y ∧
            Complete fingerprint program rename y ∧ Persists (s.enter index) y ∧
            ∀ i, y.states i = .entered → (s.enter index).states i = .entered) ∧
          (∀ (j : Nat) (u : NativeContinuation δ), program.continuations[j]? = some u →
            u.id = reference → y.states j = .finished) ∧
          ∀ other, (∀ (j : Nat) (u : NativeContinuation δ), program.continuations[j]? = some u →
            u.id = other → x.states j = .finished) →
            ∀ (j : Nat) (u : NativeContinuation δ), program.continuations[j]? = some u →
              u.id = other → y.states j = .finished := by
        intro reference refers x y visited keeps
        obtain ⟨internsX, completeX, persistsX, enteredX⟩ := keeps
        unfold Interning.visit at visited
        split at visited
        · rename_i d found
          obtain ⟨u, ud, isReference⟩ := (indexOf_iff internsX distinct).mp found
          have edge : Refers program continuation.id u.id := by
            refine ⟨mem_map.mpr ⟨u, mem_of_getElem? ud, rfl⟩, continuation,
              mem_of_getElem? isTable, rfl, ?_⟩
            rw [isReference]
            simpa [dependencies] using refers
          have leadsX : ∀ (j : Nat) (v w : NativeContinuation δ), program.continuations[j]? = some v →
              x.states j = .entered → program.continuations[d]? = some w →
                Relation.TransGen (Refers program) v.id w.id := by
            intro j v w vj entered wd
            cases ud.symm.trans wd
            by_cases here : j = index
            · subst here
              cases isTable.symm.trans vj
              exact .single edge
            · have entered' := enteredX j entered
              rw [before j here] at entered'
              exact (leads j v continuation vj entered' isTable).tail edge
          obtain ⟨internsY, persistsY⟩ := Interns.search distinct fuel d internsX visited
          obtain ⟨completeY, finishedY, enteredY⟩ := ih d internsX completeX leadsX visited
          refine ⟨⟨internsY, completeY, persistsX.trans persistsY,
            fun i entered => enteredX i (enteredY i entered)⟩, fun j w wj isId => ?_,
            fun other done j w wj isId => ?_⟩
          · cases index_unique distinct ud wj (isReference.trans isId.symm)
            exact finishedY u ud
          · rw [persistsY j (by simp [done j w wj isId]), done j w wj isId]
        · rename_i notFound
          cases visited
          refine ⟨⟨internsX, completeX, persistsX, enteredX⟩, fun j w wj isId => ?_,
            fun _ done => done⟩
          have found := (indexOf_iff internsX distinct).mpr ⟨w, wj, isId⟩
          exact absurd found (by simp [notFound])
      obtain ⟨⟨internsInner, completeInner, persistsInner, enteredInner⟩, done, _⟩ :=
        foldlM_each step folded ⟨interns.enter unseen, complete.enter unseen, fun _ _ => rfl,
          fun _ entered => entered⟩
      have entered : inner.states index = .entered := by
        rw [persistsInner index (by simp [marked]), marked]
      have ready : ∀ (j : Nat) (u : NativeContinuation δ), program.continuations[j]? = some u →
          u.id ∈ continuationReferences continuation.body → inner.states j = .finished :=
        fun j u uj refers => done u.id (by simpa [dependencies] using refers) j u uj rfl
      have standsInner := completeInner.untouched index continuation isTable
        (by simp [entered])
      refine ⟨completeInner.finish internsInner distinct congruence isTable entered ready,
        fun _ _ => finish_self standsInner, fun i enteredLast => ?_⟩
      by_cases here : i = index
      · rw [here, finish_self standsInner] at enteredLast
        cases enteredLast
      · rw [finish_states inner index i here] at enteredLast
        rw [← before i here]
        exact enteredInner i enteredLast
    · rename_i notOpen
      cases run
      refine ⟨complete, fun t isTable => ?_, fun _ entered => entered⟩
      obtain ⟨body, stands, _⟩ := interns.bodies index t isTable
      cases state : s.states index with
      | unseen => exact absurd stands (notOpen _ state)
      | entered => exact absurd (leads index t t isTable state isTable) (acyclic t.id)
      | finished => rfl

/-- Where no continuation leads back to itself, interning merges all that is interchangeable. -/
theorem merged_of_interchangeable (distinct : program.ids.Nodup) (acyclic : Acyclic program)
    (run : internContinuations fingerprint program.role program.continuations = some s') {i j : Nat}
    (interchangeable : Interchangeable program i j) :
    canonicalId s'.aliases i = canonicalId s'.aliases j := by
  obtain ⟨rename, congruence, same⟩ := interchangeable
  have interns := interns_of_internContinuations distinct run
  have step : ∀ index ∈ (List.range program.continuations.length).reverse, ∀ x y,
      internContinuation fingerprint program.role (program.continuations.length + 1) index x = some y →
      (Interns program.role program.continuations x ∧ Complete fingerprint program rename x ∧
        ∀ i, x.states i ≠ .entered) →
      (Interns program.role program.continuations y ∧ Complete fingerprint program rename y ∧
        ∀ i, y.states i ≠ .entered) ∧
      (∀ t, program.continuations[index]? = some t → y.states index = .finished) ∧
      ∀ other, (∀ t, program.continuations[other]? = some t → x.states other = .finished) →
        ∀ t, program.continuations[other]? = some t → y.states other = .finished := by
    intro index _ x y visited keeps
    obtain ⟨internsX, completeX, settled⟩ := keeps
    obtain ⟨internsY, persists⟩ := Interns.search distinct _ index internsX visited
    obtain ⟨completeY, finished, enteredY⟩ := Complete.search distinct congruence acyclic _ index
      internsX completeX (fun j _ _ _ entered => absurd entered (settled j)) visited
    refine ⟨⟨internsY, completeY, fun i entered => settled i (enteredY i entered)⟩, finished,
      fun other done t isTable => ?_⟩
    rw [persists other (by simp [done t isTable]), done t isTable]
  obtain ⟨⟨_, complete, _⟩, done, _⟩ := foldlM_each step run
    ⟨interns_start, complete_start, fun _ => nofun⟩
  have finished : ∀ (k : Nat) (t : NativeContinuation δ), program.continuations[k]? = some t →
      s'.states k = .finished := by
    intro k t isTable
    have bound := (List.getElem?_eq_some_iff.mp isTable).1
    exact done k (by simpa using bound) t isTable
  by_cases inI : i ∈ program.ids
  · have inJ : j ∈ program.ids := by
      by_contra outJ
      rw [congruence.outside j outJ] at same
      exact outJ (same ▸ congruence.inside i inI)
    obtain ⟨t, memT, rfl⟩ := mem_map.mp inI
    obtain ⟨u, memU, rfl⟩ := mem_map.mp inJ
    obtain ⟨k, tk⟩ := mem_iff_getElem?.mp memT
    obtain ⟨l, ul⟩ := mem_iff_getElem?.mp memU
    exact complete.joined k l t u tk ul (finished k t tk) (finished l u ul) same
  · have outJ : j ∉ program.ids := by
      intro inJ
      rw [congruence.outside i inI] at same
      exact inI (same ▸ congruence.inside j inJ)
    rw [congruence.outside i inI, congruence.outside j outJ] at same
    rw [same]

end search

end completes

end Terlan.NativeIr
