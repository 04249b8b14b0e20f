/-
  Interning of continuations: continuations of the same parameters, result, body and role become
  one. A depth-first search comes to what a body references before the body itself; a body that
  was met before makes its continuation an alias, and aliases are renamed everywhere.

  `Interns` is what every step of the search keeps: aliases are one step long, they relate
  continuations that are the same up to aliases, and bodies are rewritten by earlier aliases
  only, which later ones absorb.
-/
import Mathlib.Data.Finset.Card
import Terlan.NativeIr.ContinuationIds

namespace Terlan.NativeIr

open List Function

variable {δ : Type}

/-! ## Aliases -/

/-- Follows aliases for a number of steps. -/
def resolveAlias (aliases : List (Nat × Nat)) : Nat → Nat → Nat
  | 0, id => id
  | steps + 1, id =>
    match aliases.lookup id with
    | some next => if next = id then id else resolveAlias aliases steps next
    | none => id

/-- Follows aliases to their end. No chain is longer than there are aliases. -/
def canonicalId (aliases : List (Nat × Nat)) (id : Nat) : Nat :=
  resolveAlias aliases aliases.length id

/-! ## The search -/

structure NativeContinuation (δ : Type) where
  id : Nat
  params : List NativeType
  returnType : NativeType
  body : NativeExpr δ
deriving DecidableEq

inductive Visit where
  | unseen
  | entered
  | finished
deriving DecidableEq

structure Interning (δ : Type) where
  continuations : List (NativeContinuation δ)
  states : Nat → Visit
  aliases : List (Nat × Nat)
  /-- Indexes of the continuations met first, by fingerprint. -/
  canonical : Nat → List Nat

section search

variable [DecidableEq δ]
  (fingerprint : ContinuationProtocolRole → List NativeType → NativeType → NativeExpr δ → Nat)
  (roles : Nat → ContinuationProtocolRole)

def Interning.start (continuations : List (NativeContinuation δ)) : Interning δ :=
  ⟨continuations, fun _ => .unseen, [], fun _ => []⟩

def Interning.indexOf (s : Interning δ) (id : Nat) : Option Nat :=
  s.continuations.findIdx? (·.id = id)

def NativeContinuation.SameAs (existing continuation : NativeContinuation δ) : Prop :=
  existing.params = continuation.params ∧ existing.returnType = continuation.returnType ∧
    existing.body = continuation.body ∧ roles existing.id = roles continuation.id

instance (existing continuation : NativeContinuation δ) :
    Decidable (existing.SameAs roles continuation) :=
  inferInstanceAs (Decidable (_ ∧ _))

def Interning.matches (s : Interning δ) (continuation : NativeContinuation δ) (index : Nat) : Bool :=
  match s.continuations[index]? with
  | some existing => existing.SameAs roles continuation
  | none => false

def NativeContinuation.print (continuation : NativeContinuation δ) : Nat :=
  fingerprint (roles continuation.id) continuation.params continuation.returnType continuation.body

def Interning.enter (s : Interning δ) (index : Nat) : Interning δ :=
  { s with states := Function.update s.states index .entered }

def Interning.place (s : Interning δ) (index : Nat) (settled : NativeContinuation δ) : Interning δ :=
  { s with
    continuations := s.continuations.set index settled
    states := Function.update s.states index .finished }

def Interning.addAlias (s : Interning δ) (id next : Nat) : Interning δ :=
  { s with aliases := (id, next) :: s.aliases }

def Interning.addCanonical (s : Interning δ) (print index : Nat) : Interning δ :=
  { s with canonical := Function.update s.canonical print (s.canonical print ++ [index]) }

/-- The first continuation with the fingerprint that is the same. -/
def Interning.existing (s : Interning δ) (settled : NativeContinuation δ) :
    Option (NativeContinuation δ) :=
  ((s.canonical (settled.print fingerprint roles)).find? (s.matches roles settled)).bind
    (s.continuations[·]?)

/-- Puts a rewritten continuation in its place, as an alias of an equal one or as a new one. -/
def Interning.settle (s : Interning δ) (index : Nat) (settled : NativeContinuation δ) : Interning δ :=
  match (s.place index settled).existing fingerprint roles settled with
  | some existing => (s.place index settled).addAlias settled.id existing.id
  | none => (s.place index settled).addCanonical (settled.print fingerprint roles) index

def NativeContinuation.rewrite (aliases : List (Nat × Nat)) (continuation : NativeContinuation δ) :
    NativeContinuation δ :=
  { continuation with body := rewriteContinuationIds (canonicalId aliases) continuation.body }

def Interning.finish (s : Interning δ) (index : Nat) : Interning δ :=
  match s.continuations[index]? with
  | some continuation => s.settle fingerprint roles index (continuation.rewrite s.aliases)
  | none => s

/-- What a body references, in order and without repetitions. -/
def dependencies (body : NativeExpr δ) : List Nat := (continuationReferences body).mergeSort.dedup

/-- Comes to a referenced continuation, if there is one of the identity. -/
def Interning.visit (s : Interning δ) (intern : Nat → Interning δ → Option (Interning δ))
    (reference : Nat) : Option (Interning δ) :=
  match s.indexOf reference with
  | some dependency => intern dependency s
  | none => some s

/-- Interns what a continuation references and then the continuation. -/
def internContinuation : Nat → Nat → Interning δ → Option (Interning δ)
  | 0, _, _ => none
  | fuel + 1, index, s =>
    match s.states index, s.continuations[index]? with
    | .unseen, some continuation => do
      let s ← (dependencies continuation.body).foldlM
        (fun s reference => s.visit (internContinuation fuel) reference) (s.enter index)
      some (s.finish fingerprint roles index)
    | _, _ => some s

/-- Interns every continuation, from the last one on. -/
def internContinuations (continuations : List (NativeContinuation δ)) : Option (Interning δ) :=
  (List.range continuations.length).reverse.foldlM
    (fun s index => internContinuation fingerprint roles (continuations.length + 1) index s)
    (.start continuations)

end search

/-! ## Programs -/

/-- The bodies of the functions and the continuations of an application. -/
structure NativeProgram (δ : Type) where
  functions : List (NativeExpr δ)
  continuations : List (NativeContinuation δ)
deriving DecidableEq

namespace NativeProgram

def bodies (program : NativeProgram δ) : List (NativeExpr δ) :=
  program.functions ++ program.continuations.map (·.body)

def ids (program : NativeProgram δ) : List Nat := program.continuations.map (·.id)

def role (program : NativeProgram δ) : Nat → ContinuationProtocolRole :=
  continuationProtocolRole program.bodies

/-- Everything is rewritten, and aliases are dropped. -/
def share (program : NativeProgram δ) (s : Interning δ) : NativeProgram δ where
  functions := program.functions.map (rewriteContinuationIds (canonicalId s.aliases))
  continuations := (s.continuations.filter fun continuation =>
    canonicalId s.aliases continuation.id = continuation.id).map fun continuation =>
      continuation.rewrite s.aliases

variable [DecidableEq δ]
  (fingerprint : ContinuationProtocolRole → List NativeType → NativeType → NativeExpr δ → Nat)

/-- Interning over the functions and continuations of all modules. -/
def internEquivalentContinuations (program : NativeProgram δ) : Option (NativeProgram δ) :=
  (internContinuations fingerprint program.role program.continuations).map program.share

/-- Interning while one function is lowered, over its body and the functions lifted out of it. -/
def internFunctionContinuations (body : NativeExpr δ) (lifted : List (NativeExpr δ))
    (continuations : List (NativeContinuation δ)) : Option (NativeProgram δ) :=
  internEquivalentContinuations fingerprint ⟨body :: lifted, continuations⟩

end NativeProgram

/-! ## Aliases that are one step long -/

section aliases

variable {aliases : List (Nat × Nat)} {k m : Nat}

/-- No alias leads to an alias. -/
def Flat (aliases : List (Nat × Nat)) : Prop :=
  ∀ id next, aliases.lookup id = some next → aliases.lookup next = none

section

variable (flat : Flat aliases)
include flat

theorem canonicalId_of_flat (id : Nat) :
    canonicalId aliases id = (aliases.lookup id).getD id := by
  unfold canonicalId
  cases found : aliases.lookup id with
  | none =>
    cases aliases.length with
    | zero => rfl
    | succ steps => rw [resolveAlias, found]; rfl
  | some next =>
    have rest : ∀ steps, resolveAlias aliases steps next = next := by
      intro steps
      cases steps with
      | zero => rfl
      | succ steps => rw [resolveAlias, flat id next found]
    cases aliases with
    | nil => exact absurd found nofun
    | cons entry others =>
      rw [length_cons, resolveAlias, found]
      simp only [rest, Option.getD_some, ite_eq_right_iff]
      exact fun same => same.symm

theorem canonicalId_of_lookup (found : aliases.lookup k = some m) :
    canonicalId aliases k = m := by
  rw [canonicalId_of_flat flat, found, Option.getD_some]

theorem canonicalId_of_none (none : aliases.lookup k = none) :
    canonicalId aliases k = k := by
  rw [canonicalId_of_flat flat, none, Option.getD_none]

/-- Where the chain ends there is no further alias. -/
theorem lookup_canonicalId (id : Nat) :
    aliases.lookup (canonicalId aliases id) = none := by
  cases found : aliases.lookup id with
  | none => rw [canonicalId_of_none flat found, found]
  | some next => rw [canonicalId_of_lookup flat found, flat id next found]

theorem canonicalId_idem (id : Nat) :
    canonicalId aliases (canonicalId aliases id) = canonicalId aliases id :=
  canonicalId_of_none flat (lookup_canonicalId flat id)

end

theorem lookup_cons_eq (id : Nat) :
    ((k, m) :: aliases).lookup id = if id = k then some m else aliases.lookup id := by
  rw [lookup_cons]
  by_cases same : id = k
  · simp [same]
  · simp [same, beq_eq_false_iff_ne.mpr same]

/-- What a new alias needs: both ends are free of aliases. -/
structure Fresh (aliases : List (Nat × Nat)) (k m : Nat) : Prop where
  source : aliases.lookup k = none
  target : aliases.lookup m = none
  differ : k ≠ m
  unused : ∀ id, aliases.lookup id ≠ some k

theorem Flat.cons (flat : Flat aliases) (fresh : Fresh aliases k m) : Flat ((k, m) :: aliases) := by
  intro id next found
  rw [lookup_cons_eq] at found ⊢
  split at found
  · cases found
    rw [if_neg (Ne.symm fresh.differ), fresh.target]
  · have notSource : next ≠ k := fun same => fresh.unused id (same ▸ found)
    rw [if_neg notSource, flat id next found]

theorem canonicalId_cons (flat : Flat aliases) (fresh : Fresh aliases k m) (id : Nat) :
    canonicalId ((k, m) :: aliases) id = if id = k then m else canonicalId aliases id := by
  rw [canonicalId_of_flat (flat.cons fresh), canonicalId_of_flat flat, lookup_cons_eq]
  split <;> rfl

/-- A later alias absorbs the earlier ones. -/
theorem canonicalId_cons_comp (flat : Flat aliases) (fresh : Fresh aliases k m) :
    canonicalId ((k, m) :: aliases) ∘ canonicalId aliases = canonicalId ((k, m) :: aliases) := by
  funext id
  rw [comp_apply, canonicalId_cons flat fresh, canonicalId_cons flat fresh,
    canonicalId_idem flat]
  by_cases isSource : id = k
  · rw [isSource, canonicalId_of_none flat fresh.source, if_pos rfl]
  have notSource : canonicalId aliases id ≠ k := by
    intro same
    cases found : aliases.lookup id with
    | none => exact isSource ((canonicalId_of_none flat found).symm.trans same)
    | some next =>
      rw [canonicalId_of_lookup flat found] at same
      exact fresh.unused id (same ▸ found)
  rw [if_neg notSource, if_neg isSource]

end aliases

/-! ## What the search keeps -/

section invariant

variable (roles : Nat → ContinuationProtocolRole) (table : List (NativeContinuation δ))

/-- Two continuations that may be one: everything is equal, bodies up to a renaming. -/
structure NativeContinuation.Merges (rename : Nat → Nat) (t u : NativeContinuation δ) : Prop where
  params : t.params = u.params
  returnType : t.returnType = u.returnType
  role : roles t.id = roles u.id
  body : rewriteContinuationIds rename t.body = rewriteContinuationIds rename u.body

structure Interns (s : Interning δ) : Prop where
  flat : Flat s.aliases
  length : s.continuations.length = table.length
  /-- Every continuation is what it was, up to aliases in its body. -/
  bodies : ∀ (i : Nat) (t : NativeContinuation δ), table[i]? = some t → ∃ body,
    s.continuations[i]? = some { t with body := body } ∧
      rewriteContinuationIds (canonicalId s.aliases) body =
        rewriteContinuationIds (canonicalId s.aliases) t.body
  /-- An alias and what it stands for are both finished, and they merge. -/
  aliased : ∀ id next, s.aliases.lookup id = some next → ∃ (i j : Nat) (t u : NativeContinuation δ),
    table[i]? = some t ∧ t.id = id ∧ s.states i = .finished ∧
      table[j]? = some u ∧ u.id = next ∧ s.states j = .finished ∧
        t.Merges roles (canonicalId s.aliases) u
  canonical : ∀ print, ∀ i ∈ s.canonical print, s.states i = .finished ∧
    ∀ t, table[i]? = some t → s.aliases.lookup t.id = none

end invariant

section keeps

variable {roles : Nat → ContinuationProtocolRole} {table : List (NativeContinuation δ)}

theorem NativeContinuation.Merges.absorb {f g : Nat → Nat} {t u : NativeContinuation δ}
    (merges : t.Merges roles g u) (absorbs : f ∘ g = f) : t.Merges roles f u := by
  refine ⟨merges.params, merges.returnType, merges.role, ?_⟩
  rw [← absorbs, ← rewriteContinuationIds_comp, merges.body, rewriteContinuationIds_comp]

theorem index_unique (distinct : (table.map (·.id)).Nodup) {i j : Nat} {t u : NativeContinuation δ}
    (ti : table[i]? = some t) (uj : table[j]? = some u) (same : t.id = u.id) : i = j := by
  have hi : (table.map (·.id))[i]? = some t.id := by rw [getElem?_map, ti]; rfl
  have hj : (table.map (·.id))[j]? = some t.id := by rw [getElem?_map, uj, same]; rfl
  have bound : i < (table.map (·.id)).length := (List.getElem?_eq_some_iff.mp hi).1
  exact (getElem?_inj bound distinct).mp (hi.trans hj.symm)

theorem interns_start : Interns roles table (.start table) where
  flat := fun _ _ found => absurd found nofun
  length := rfl
  bodies := fun _ t found => ⟨t.body, found, rfl⟩
  aliased := fun _ _ found => absurd found nofun
  canonical := fun _ _ mem => absurd mem not_mem_nil

theorem finished_enter {s : Interning δ} {index : Nat} (unseen : s.states index = .unseen) (i : Nat) :
    (s.enter index).states i = .finished ↔ s.states i = .finished := by
  by_cases here : i = index
  · simp [Interning.enter, here, unseen]
  · simp [Interning.enter, here]

/-- Marking a continuation that is not finished. -/
theorem Interns.enter {s : Interning δ} (interns : Interns roles table s) {index : Nat}
    (unseen : s.states index = .unseen) : Interns roles table (s.enter index) := by
  have kept := fun i => (finished_enter unseen i).mpr
  refine ⟨interns.flat, interns.length, interns.bodies, fun id next found => ?_,
    fun print i mem => (interns.canonical print i mem).imp_left (kept i)⟩
  obtain ⟨i, j, t, u, ti, isId, finished, uj, isNext, finished', merges⟩ :=
    interns.aliased id next found
  exact ⟨i, j, t, u, ti, isId, kept i finished, uj, isNext, kept j finished', merges⟩

section settle

variable {s : Interning δ} {index : Nat} {t : NativeContinuation δ} {body : NativeExpr δ}

theorem finished_place {i : Nat} : Function.update s.states index .finished i = .finished ↔
    i = index ∨ s.states i = .finished := by
  by_cases here : i = index
  · simp [here]
  · simp [here]

section

variable (interns : Interns roles table s)
include interns

/-- Putting a body in its place that is the same up to aliases. -/
theorem Interns.place (entered : s.states index = .entered)
    (isTable : table[index]? = some t) (same : rewriteContinuationIds (canonicalId s.aliases) body =
      rewriteContinuationIds (canonicalId s.aliases) t.body) :
    Interns roles table (s.place index { t with body := body }) := by
  have kept : ∀ i, s.states i = .finished →
      Function.update s.states index .finished i = .finished :=
    fun _ finished => finished_place.mpr (.inr finished)
  have bound : index < s.continuations.length := by
    rw [interns.length]
    exact (List.getElem?_eq_some_iff.mp isTable).1
  refine ⟨interns.flat, length_set.trans interns.length, fun i u isOther => ?_,
    fun id next found => ?_,
    fun print i mem => (interns.canonical print i mem).imp_left (kept i)⟩
  · by_cases here : i = index
    · subst here
      cases isTable.symm.trans isOther
      exact ⟨body, getElem?_set_self bound, same⟩
    · obtain ⟨other, stands, sameOther⟩ := interns.bodies i u isOther
      exact ⟨other, (getElem?_set_ne (Ne.symm here)).trans stands, sameOther⟩
  · obtain ⟨i, j, t, u, ti, isId, finished, uj, isNext, finished', merges⟩ :=
      interns.aliased id next found
    exact ⟨i, j, t, u, ti, isId, kept i finished, uj, isNext, kept j finished', merges⟩

/-- A new alias between continuations that merge. -/
theorem Interns.addAlias {i j : Nat} {t u : NativeContinuation δ}
    (ti : table[i]? = some t) (uj : table[j]? = some u) (finished : s.states i = .finished)
    (finished' : s.states j = .finished) (fresh : Fresh s.aliases t.id u.id)
    (unlisted : ∀ print, i ∉ s.canonical print) (distinct : (table.map (·.id)).Nodup)
    (merges : t.Merges roles (canonicalId s.aliases) u) :
    Interns roles table (s.addAlias t.id u.id) := by
  have absorbs := canonicalId_cons_comp interns.flat fresh
  refine ⟨interns.flat.cons fresh, interns.length, fun k v isOther => ?_, fun id next found => ?_,
    fun print k mem => ⟨(interns.canonical print k mem).1, fun v isOther => ?_⟩⟩
  · obtain ⟨body, stands, same⟩ := interns.bodies k v isOther
    refine ⟨body, stands, ?_⟩
    show rewriteContinuationIds (canonicalId ((t.id, u.id) :: s.aliases)) body =
      rewriteContinuationIds (canonicalId ((t.id, u.id) :: s.aliases)) v.body
    rw [← absorbs, ← rewriteContinuationIds_comp, same, rewriteContinuationIds_comp]
  · replace found : ((t.id, u.id) :: s.aliases).lookup id = some next := found
    rw [lookup_cons_eq] at found
    split at found
    · rename_i isSource
      cases found
      exact ⟨i, j, t, u, ti, isSource.symm, finished, uj, rfl, finished', merges.absorb absorbs⟩
    · obtain ⟨i, j, t, u, ti, isId, finished, uj, isNext, finished', before⟩ :=
        interns.aliased id next found
      exact ⟨i, j, t, u, ti, isId, finished, uj, isNext, finished', before.absorb absorbs⟩
  · show ((t.id, u.id) :: s.aliases).lookup v.id = none
    have other : v.id ≠ t.id := by
      intro same
      cases index_unique distinct isOther ti same
      exact unlisted print mem
    rw [lookup_cons_eq, if_neg other, (interns.canonical print k mem).2 v isOther]

theorem Interns.addCanonical (finished : s.states index = .finished)
    (isTable : table[index]? = some t) (free : s.aliases.lookup t.id = none) (print : Nat) :
    Interns roles table (s.addCanonical print index) := by
  refine ⟨interns.flat, interns.length, interns.bodies, interns.aliased, fun other i mem => ?_⟩
  replace mem : i ∈ Function.update s.canonical print (s.canonical print ++ [index]) other := mem
  by_cases here : other = print
  · subst here
    rw [update_self] at mem
    rcases mem_append.mp mem with before | isNew
    · exact interns.canonical other i before
    cases mem_singleton.mp isNew
    refine ⟨finished, fun u isOther => ?_⟩
    cases isTable.symm.trans isOther
    exact free
  · rw [update_of_ne here] at mem
    exact interns.canonical other i mem

/-- An index that is not finished is not part of any alias yet. -/
theorem Interns.unaliased (distinct : (table.map (·.id)).Nodup)
    (isTable : table[index]? = some t) (notFinished : s.states index ≠ .finished) :
    s.aliases.lookup t.id = none ∧ ∀ id, s.aliases.lookup id ≠ some t.id := by
  constructor
  · cases found : s.aliases.lookup t.id with
    | none => rfl
    | some next =>
      obtain ⟨i, j, v, u, vi, isId, finished, _⟩ := interns.aliased t.id next found
      cases index_unique distinct isTable vi isId.symm
      exact absurd finished notFinished
  · intro id found
    obtain ⟨i, j, v, u, vi, isId, _, uj, isNext, finished, _⟩ := interns.aliased id t.id found
    cases index_unique distinct isTable uj isNext.symm
    exact notFinished finished

theorem Interns.stands {j : Nat} {continuation : NativeContinuation δ}
    (stands : s.continuations[j]? = some continuation) : ∃ u body, table[j]? = some u ∧
      continuation = { u with body := body } ∧ rewriteContinuationIds (canonicalId s.aliases) body =
        rewriteContinuationIds (canonicalId s.aliases) u.body := by
  have bound := (List.getElem?_eq_some_iff.mp stands).1
  rw [interns.length] at bound
  obtain ⟨body, stands', same⟩ := interns.bodies j _ (getElem?_eq_getElem bound)
  exact ⟨_, body, getElem?_eq_getElem bound, Option.some.inj (stands.symm.trans stands'), same⟩

end

variable [DecidableEq δ]
  {fingerprint : ContinuationProtocolRole → List NativeType → NativeType → NativeExpr δ → Nat}

/-- What is found for a continuation is another that is finished and no alias. -/
theorem Interns.of_existing (interns : Interns roles table s) (entered : s.states index = .entered)
    {settled existing : NativeContinuation δ}
    (found : (s.place index settled).existing fingerprint roles settled = some existing) :
    ∃ j u body, table[j]? = some u ∧ s.states j = .finished ∧ s.aliases.lookup u.id = none ∧
      s.continuations[j]? = some existing ∧ existing = { u with body := body } ∧
        rewriteContinuationIds (canonicalId s.aliases) body =
          rewriteContinuationIds (canonicalId s.aliases) u.body ∧ existing.SameAs roles settled := by
  obtain ⟨j, first, isExisting⟩ := Option.bind_eq_some_iff.mp found
  obtain ⟨finished, free⟩ := interns.canonical _ j (mem_of_find?_eq_some first)
  have matched := find?_some first
  simp only [Interning.matches, isExisting, decide_eq_true_eq] at matched
  have elsewhere : index ≠ j := by
    rintro rfl
    exact absurd (entered.symm.trans finished) nofun
  replace isExisting := (getElem?_set_ne elsewhere).symm.trans isExisting
  obtain ⟨u, body, uj, same, up⟩ := interns.stands isExisting
  exact ⟨j, u, body, uj, finished, free u uj, isExisting, same, up, matched⟩

theorem Interns.finish (interns : Interns roles table s) (distinct : (table.map (·.id)).Nodup)
    (entered : s.states index = .entered) : Interns roles table (s.finish fingerprint roles index) := by
  unfold Interning.finish
  split
  case h_2 => exact interns
  rename_i continuation stands
  obtain ⟨t, body, isTable, rfl, up⟩ := interns.stands stands
  have same : rewriteContinuationIds (canonicalId s.aliases)
      (rewriteContinuationIds (canonicalId s.aliases) body) =
        rewriteContinuationIds (canonicalId s.aliases) t.body := by
    have idem : canonicalId s.aliases ∘ canonicalId s.aliases = canonicalId s.aliases :=
      funext (canonicalId_idem interns.flat)
    rw [rewriteContinuationIds_comp, idem, up]
  obtain ⟨free, unused⟩ := interns.unaliased distinct isTable (by rw [entered]; exact nofun)
  have placed : Interns roles table
      (s.place index (NativeContinuation.rewrite s.aliases { t with body := body })) :=
    Interns.place (t := t) interns entered isTable same
  have notListed : ∀ print, index ∉ s.canonical print := fun print mem =>
    absurd (entered.symm.trans (interns.canonical print index mem).1) nofun
  unfold Interning.settle
  split
  · rename_i existing found
    obtain ⟨j, u, other, uj, finished, target, _, rfl, up, params, returnType, sameBody, role⟩ :=
      interns.of_existing entered found
    have merges : t.Merges roles (canonicalId s.aliases) u :=
      ⟨params.symm, returnType.symm, role.symm, same.symm.trans ((congrArg _ sameBody.symm).trans up)⟩
    refine Interns.addAlias (t := t) (u := u) placed isTable uj (update_self index _ s.states)
      (finished_place.mpr (.inr finished)) ⟨free, target, fun clash => ?_, unused⟩ notListed distinct
        merges
    cases index_unique distinct uj isTable clash.symm
    exact absurd (entered.symm.trans finished) nofun
  · exact placed.addCanonical (update_self index _ s.states) isTable free _

end settle

/-! ## The whole search -/

/-- Continuations that are entered or finished stay so. -/
def Persists (s s' : Interning δ) : Prop := ∀ i, s.states i ≠ .unseen → s'.states i = s.states i

theorem Persists.trans {s s' s'' : Interning δ} (first : Persists s s') (second : Persists s' s'') :
    Persists s s'' := by
  intro i seen
  rw [second i (by rw [first i seen]; exact seen), first i seen]

/-- What each step of a loop keeps, and how each leads on, the whole loop does. -/
theorem foldlM_keeps {σ α : Type} {f : σ → α → Option σ} {I : σ → Prop} {R : σ → σ → Prop}
    (refl : ∀ x, R x x) (trans : ∀ x y z, R x y → R y z → R x z)
    (step : ∀ x a y, f x a = some y → I x → I y ∧ R x y) {l : List α} {s s' : σ}
    (run : l.foldlM f s = some s') (keeps : I s) : I s' ∧ R s s' := by
  induction l generalizing s with
  | nil =>
    cases run
    exact ⟨keeps, refl s'⟩
  | cons a l ih =>
    rw [foldlM_cons] at run
    obtain ⟨t, first, rest⟩ := Option.bind_eq_some_iff.mp run
    obtain ⟨keepsNext, leads⟩ := step s a t first keeps
    exact (ih rest keepsNext).imp_right (trans s t s' leads)

section search

variable [DecidableEq δ]
  {fingerprint : ContinuationProtocolRole → List NativeType → NativeType → NativeExpr δ → Nat}
  {s s' : Interning δ}

theorem finish_states (s : Interning δ) (index i : Nat) (other : i ≠ index) :
    (s.finish fingerprint roles index).states i = s.states i := by
  unfold Interning.finish Interning.settle
  split
  · split
    · exact update_of_ne other _ _
    · exact update_of_ne other _ _
  · rfl

theorem Interns.search (distinct : (table.map (·.id)).Nodup) (fuel index : Nat)
    (interns : Interns roles table s)
    (run : internContinuation fingerprint roles fuel index s = some s') :
    Interns roles table s' ∧ Persists s s' := by
  induction fuel generalizing index s s' with
  | zero => exact absurd run nofun
  | succ fuel ih =>
    rw [internContinuation] at run
    split at run
    · rename_i continuation unseen stands
      obtain ⟨inner, folded, finished⟩ := Option.bind_eq_some_iff.mp run
      cases finished
      have marked : (s.enter index).states index = .entered := update_self _ _ _
      obtain ⟨internsInner, persists⟩ := foldlM_keeps (R := Persists) (fun _ _ _ => rfl)
        (fun _ _ _ => Persists.trans) (fun s reference s' visited interns => by
          unfold Interning.visit at visited
          split at visited
          · exact ih _ interns visited
          · cases visited
            exact ⟨interns, fun _ _ => rfl⟩) folded (interns.enter unseen)
      have entered : inner.states index = .entered := by
        rw [persists index (by rw [marked]; exact nofun), marked]
      refine ⟨internsInner.finish distinct entered, fun i seen => ?_⟩
      have other : i ≠ index := fun here => seen (here ▸ unseen)
      have before : (s.enter index).states i = s.states i := update_of_ne other _ _
      rw [finish_states inner index i other, persists i (by rw [before]; exact seen), before]
    · cases run
      exact ⟨interns, fun _ _ => rfl⟩

theorem interns_of_internContinuations (distinct : (table.map (·.id)).Nodup)
    (run : internContinuations fingerprint roles table = some s') : Interns roles table s' :=
  (foldlM_keeps (R := Persists) (fun _ _ _ => rfl) (fun _ _ _ => Persists.trans)
    (fun _ _ _ visited interns => Interns.search distinct _ _ interns visited) run interns_start).1

/-! ## The search ends -/

/-- Indexes that are still to be visited. -/
def unseenIndexes (table : List (NativeContinuation δ)) (s : Interning δ) : Finset Nat :=
  (Finset.range table.length).filter fun i => s.states i = .unseen

omit [DecidableEq δ] in
theorem mem_unseenIndexes {i : Nat} :
    i ∈ unseenIndexes table s ↔ i < table.length ∧ s.states i = .unseen := by
  simp [unseenIndexes]

omit [DecidableEq δ] in
theorem Persists.unseen (persists : Persists s s') :
    unseenIndexes table s' ⊆ unseenIndexes table s := by
  intro i mem
  obtain ⟨bound, unseen⟩ := mem_unseenIndexes.mp mem
  refine mem_unseenIndexes.mpr ⟨bound, ?_⟩
  by_contra seen
  exact seen ((persists i seen).symm.trans unseen)

omit [DecidableEq δ] in
theorem unseen_enter {index : Nat} (bound : index < table.length) (unseen : s.states index = .unseen) :
    (unseenIndexes table (s.enter index)).card < (unseenIndexes table s).card := by
  have marked : (s.enter index).states index = .entered := update_self _ _ _
  refine Finset.card_lt_card ⟨fun i mem => ?_, fun all => ?_⟩
  · obtain ⟨inside, unseenAfter⟩ := mem_unseenIndexes.mp mem
    refine mem_unseenIndexes.mpr ⟨inside, ?_⟩
    by_cases here : i = index
    · rw [here, unseen]
    · have before : (s.enter index).states i = s.states i := update_of_ne here _ _
      rw [← before, unseenAfter]
  · have still := (mem_unseenIndexes.mp (all (mem_unseenIndexes.mpr ⟨bound, unseen⟩))).2
    rw [marked] at still
    exact absurd still nofun

/-- A loop ends when each step does. -/
theorem foldlM_ends {σ α : Type} {f : σ → α → Option σ} {I : σ → Prop}
    (step : ∀ x a, I x → ∃ y, f x a = some y ∧ I y) (l : List α) {s : σ} (keeps : I s) :
    ∃ s', l.foldlM f s = some s' ∧ I s' := by
  induction l generalizing s with
  | nil => exact ⟨s, rfl, keeps⟩
  | cons a l ih =>
    obtain ⟨t, first, keepsNext⟩ := step s a keeps
    obtain ⟨s', rest, keepsLast⟩ := ih keepsNext
    exact ⟨s', by rw [foldlM_cons, first]; exact rest, keepsLast⟩

/-- Fuel beyond the number of unseen continuations suffices. -/
theorem search_ends (distinct : (table.map (·.id)).Nodup) (fuel index : Nat)
    (interns : Interns roles table s) (enough : (unseenIndexes table s).card < fuel) :
    ∃ s', internContinuation fingerprint roles fuel index s = some s' := by
  induction fuel generalizing index s with
  | zero => exact absurd enough (Nat.not_lt_zero _)
  | succ fuel ih =>
    rw [internContinuation]
    split
    · rename_i continuation unseen stands
      have bound : index < table.length := by
        rw [← interns.length]
        exact (List.getElem?_eq_some_iff.mp stands).1
      have fewer : (unseenIndexes table (s.enter index)).card < fuel :=
        Nat.lt_of_lt_of_le (unseen_enter bound unseen) (Nat.le_of_lt_succ enough)
      have step : ∀ x reference, Interns roles table x ∧ (unseenIndexes table x).card < fuel →
          ∃ y, x.visit (internContinuation fingerprint roles fuel) reference = some y ∧
            Interns roles table y ∧ (unseenIndexes table y).card < fuel := by
        intro x reference keeps
        unfold Interning.visit
        cases x.indexOf reference with
        | none => exact ⟨x, rfl, keeps⟩
        | some dependency =>
          obtain ⟨y, visited⟩ := ih dependency keeps.1 keeps.2
          obtain ⟨internsNext, persists⟩ := Interns.search distinct _ _ keeps.1 visited
          exact ⟨y, visited, internsNext,
            Nat.lt_of_le_of_lt (Finset.card_le_card persists.unseen) keeps.2⟩
      obtain ⟨inner, folded, _⟩ := foldlM_ends step (dependencies continuation.body)
        ⟨interns.enter unseen, fewer⟩
      exact ⟨_, Option.bind_eq_some_iff.mpr ⟨inner, folded, rfl⟩⟩
    · exact ⟨s, rfl⟩

/-- Interning ends. -/
theorem internContinuations_ends (distinct : (table.map (·.id)).Nodup) :
    ∃ s', internContinuations fingerprint roles table = some s' := by
  have few : (unseenIndexes table (.start table)).card < table.length + 1 := by
    have le := Finset.card_filter_le (Finset.range table.length)
      fun i => (Interning.start table).states i = .unseen
    rw [Finset.card_range] at le
    exact Nat.lt_succ_of_le le
  have step : ∀ x index,
      Interns roles table x ∧ (unseenIndexes table x).card < table.length + 1 →
        ∃ y, internContinuation fingerprint roles (table.length + 1) index x = some y ∧
          Interns roles table y ∧ (unseenIndexes table y).card < table.length + 1 := by
    intro x index keeps
    obtain ⟨y, visited⟩ := search_ends distinct (table.length + 1) index keeps.1 keeps.2
    obtain ⟨internsNext, persists⟩ := Interns.search distinct _ _ keeps.1 visited
    exact ⟨y, visited, internsNext,
      Nat.lt_of_le_of_lt (Finset.card_le_card persists.unseen) keeps.2⟩
  obtain ⟨s', run, _⟩ := foldlM_ends step (List.range table.length).reverse ⟨interns_start, few⟩
  exact ⟨s', run⟩

end search

end keeps

end Terlan.NativeIr
