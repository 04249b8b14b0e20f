/-
  What sharing of continuations preserves. Every reference of a rewritten body is there, and runs
  are the same up to the aliases, except for two things that rewriting passes over. A tail call
  keeps the identity that it yields under, which is gone when an equal continuation was finished
  first. And a call finds its edge by the identity that its callee parked under, or returns to
  the callee's own continuation when two identities are equal: identities that were different
  may become equal.
-/
import Terlan.NativeIr.FinishOrder
import Terlan.NativeIr.Renaming

namespace Terlan.NativeIr

open Terlan.Lib List

variable {δ V F σ : Type}

/-! ## What is asked of a program and of a run -/

section conditions

variable (program : NativeProgram δ)

/-- Everything referenced is there. -/
def NativeProgram.Closed : Prop :=
  ∀ body ∈ program.bodies, ∀ id ∈ continuationReferences body ++ yieldReferences body, id ∈ program.ids

/-- Of the continuations that may be merged, the one that a tail call yields under is finished
first. -/
def YieldsFirst : Prop :=
  ∀ body ∈ program.bodies, ∀ y ∈ yieldReferences body, ∀ z, Interchangeable program y z →
    ¬ FinishedBefore program.continuations z y

/-- Certainly one after interning. -/
def Joined (i j : Nat) : Prop := i = j ∨ Acyclic program ∧ Interchangeable program i j

/-- The edges that may be found for a callee after interning do what the first one does. -/
def EdgesKept (edges : List NativeCallResume) (id : Nat) : Prop :=
  match edges.find? fun edge => edge.calleeContinuationId = id with
  | none => ∀ edge ∈ edges, ¬ Interchangeable program edge.calleeContinuationId id
  | some first => ∀ edge ∈ edges, Interchangeable program edge.calleeContinuationId id →
      edge.calleeCaptureCount = first.calleeCaptureCount ∧
        edge.callerValueStart = first.callerValueStart ∧
          if first.continuationId = first.calleeContinuationId then
            Joined program edge.continuationId edge.calleeContinuationId
          else ¬ Interchangeable program edge.continuationId edge.calleeContinuationId ∧
            Joined program edge.continuationId first.continuationId

def Event.Kept : Event V → Prop
  | .entered _ _ => True
  | .wrapped edges id => EdgesKept program edges id

end conditions

/-! ## Aliases rename a program -/

section sharing

variable {program : NativeProgram δ} {s : Interning δ}
  (interns : Interns program.role program.continuations s) (distinct : program.ids.Nodup)

include interns

theorem mem_share_iff {v : NativeContinuation δ} :
    v ∈ (program.share s).continuations ↔ ∃ t ∈ program.continuations,
      canonicalId s.aliases t.id = t.id ∧ v = t.rewrite s.aliases := by
  have rewritten : ∀ (t : NativeContinuation δ) (body : NativeExpr δ),
      rewriteContinuationIds (canonicalId s.aliases) body =
        rewriteContinuationIds (canonicalId s.aliases) t.body →
      NativeContinuation.rewrite s.aliases { t with body := body } = t.rewrite s.aliases := by
    intro t body same
    simp only [NativeContinuation.rewrite, same]
  simp only [NativeProgram.share, mem_map, mem_filter, decide_eq_true_eq]
  constructor
  · rintro ⟨v, ⟨mem, canonical⟩, rfl⟩
    obtain ⟨i, stands⟩ := mem_iff_getElem?.mp mem
    obtain ⟨t, ti⟩ : ∃ t, program.continuations[i]? = some t := by
      have bound := (List.getElem?_eq_some_iff.mp stands).1
      rw [interns.length] at bound
      exact ⟨_, getElem?_eq_getElem bound⟩
    obtain ⟨body, stands', same⟩ := interns.bodies i t ti
    cases stands.symm.trans stands'
    exact ⟨t, mem_of_getElem? ti, canonical, rewritten t body same⟩
  · rintro ⟨t, mem, canonical, rfl⟩
    obtain ⟨i, ti⟩ := mem_iff_getElem?.mp mem
    obtain ⟨body, stands, same⟩ := interns.bodies i t ti
    exact ⟨_, ⟨mem_of_getElem? stands, canonical⟩, rewritten t body same⟩

theorem mem_share_ids_iff {id : Nat} :
    id ∈ (program.share s).ids ↔ id ∈ program.ids ∧ canonicalId s.aliases id = id := by
  simp only [NativeProgram.ids, mem_map, mem_share_iff interns]
  constructor
  · rintro ⟨_, ⟨t, mem, canonical, rfl⟩, rfl⟩
    exact ⟨⟨t, mem, rfl⟩, canonical⟩
  · rintro ⟨⟨t, mem, rfl⟩, canonical⟩
    exact ⟨_, ⟨t, mem, canonical, rfl⟩, rfl⟩

/-- A body of the shared program is a rewritten one. -/
theorem share_body {body : NativeExpr δ} (mem : body ∈ (program.share s).bodies) :
    ∃ e ∈ program.bodies, body = rewriteContinuationIds (canonicalId s.aliases) e := by
  rcases mem_append.mp mem with inFunctions | inContinuations
  · obtain ⟨e, memE, rfl⟩ := mem_map.mp inFunctions
    exact ⟨e, mem_append_left _ memE, rfl⟩
  · obtain ⟨v, memV, rfl⟩ := mem_map.mp inContinuations
    obtain ⟨t, memT, _, rfl⟩ := (mem_share_iff interns).mp memV
    exact ⟨t.body, mem_append_right _ (mem_map_of_mem memT), rfl⟩

include distinct

/-- Every rewritten body is one of the shared program. -/
theorem body_shared {e : NativeExpr δ} (mem : e ∈ program.bodies) :
    rewriteContinuationIds (canonicalId s.aliases) e ∈ (program.share s).bodies := by
  rcases mem_append.mp mem with inFunctions | inContinuations
  · exact mem_append_left _ (mem_map_of_mem inFunctions)
  obtain ⟨t, memT, rfl⟩ := mem_map.mp inContinuations
  obtain ⟨i, ti⟩ := mem_iff_getElem?.mp memT
  obtain ⟨j, u, uj, isCanonical, merges, free, _⟩ := interns.representative distinct ti
  have kept : u.rewrite s.aliases ∈ (program.share s).continuations :=
    (mem_share_iff interns).mpr ⟨u, mem_of_getElem? uj, canonicalId_of_none interns.flat free, rfl⟩
  refine mem_append_right _ (mem_map.mpr ⟨_, kept, ?_⟩)
  exact merges.body.symm

/-- What stands under the canonical identity is the rewritten continuation. -/
theorem find_share (id : Nat) : (program.share s).body (canonicalId s.aliases id) =
        (program.body id).map (rewriteContinuationIds (canonicalId s.aliases)) ∧
      (program.share s).arity (canonicalId s.aliases id) = program.arity id := by
  unfold NativeProgram.body NativeProgram.arity
  cases found : program.find id with
  | none =>
    have absent : id ∉ program.ids := by
      intro mem
      obtain ⟨t, memT, isId⟩ := mem_map.mp mem
      exact find?_eq_none.mp found t memT (decide_eq_true isId)
    have missing : (program.share s).find (canonicalId s.aliases id) = none := by
      rw [(interns.congruence distinct).outside id absent]
      refine find?_eq_none.mpr fun v mem isId => absent ?_
      have kept := (mem_share_ids_iff interns).mp (mem_map_of_mem mem)
      exact of_decide_eq_true isId ▸ kept.1
    rw [missing]
    exact ⟨rfl, rfl⟩
  | some t =>
    have isId := find?_some found
    simp only [decide_eq_true_eq] at isId
    obtain ⟨i, ti⟩ := mem_iff_getElem?.mp (mem_of_find?_eq_some found)
    obtain ⟨j, u, uj, isCanonical, merges, free, _⟩ := interns.representative distinct ti
    have kept : u.rewrite s.aliases ∈ (program.share s).continuations :=
      (mem_share_iff interns).mpr ⟨u, mem_of_getElem? uj, canonicalId_of_none interns.flat free, rfl⟩
    rw [← isId, ← isCanonical]
    cases found' : (program.share s).find u.id with
    | none =>
      have sameId : (u.rewrite s.aliases).id = u.id := rfl
      exact absurd (decide_eq_true sameId) (find?_eq_none.mp found' _ kept)
    | some v =>
      have isId' := find?_some found'
      simp only [decide_eq_true_eq] at isId'
      obtain ⟨w, memW, _, rfl⟩ := (mem_share_iff interns).mp (mem_of_find?_eq_some found')
      obtain ⟨k, wk⟩ := mem_iff_getElem?.mp memW
      cases index_unique distinct wk uj isId'
      cases uj.symm.trans wk
      refine ⟨congrArg some merges.body.symm, congrArg some ?_⟩
      exact congrArg List.length merges.params.symm

/-- A reference is there after rewriting. -/
theorem canonicalId_mem_share {id : Nat} (mem : id ∈ program.ids) :
    canonicalId s.aliases id ∈ (program.share s).ids :=
  (mem_share_ids_iff interns).mpr
    ⟨(interns.congruence distinct).inside id mem, canonicalId_idem interns.flat id⟩

theorem renames_share
    (stay : ∀ body ∈ program.bodies, ∀ y ∈ yieldReferences body, canonicalId s.aliases y = y) :
    Renames (canonicalId s.aliases) program (program.share s) where
  functions := rfl
  body := fun id => (find_share interns distinct id).1
  arity := fun id => (find_share interns distinct id).2
  yields := stay

/-- Everything referenced is there exactly when yields keep their names. -/
theorem closed_share_iff (closed : program.Closed) : (program.share s).Closed ↔
    ∀ body ∈ program.bodies, ∀ y ∈ yieldReferences body, canonicalId s.aliases y = y := by
  constructor
  · intro closed' body mem y found
    have inShare := closed' _ (body_shared interns distinct mem) y
      (mem_append_right _ (by rw [yieldReferences_rewrite]; exact found))
    exact ((mem_share_ids_iff interns).mp inShare).2
  · intro stay body mem id found
    obtain ⟨e, memE, rfl⟩ := share_body interns mem
    rw [continuationReferences_rewrite, yieldReferences_rewrite] at found
    rcases mem_append.mp found with refers | yields
    · obtain ⟨old, memOld, rfl⟩ := mem_map.mp refers
      exact canonicalId_mem_share interns distinct
        (closed e memE old (mem_append_left _ memOld))
    · exact (mem_share_ids_iff interns).mpr
        ⟨closed e memE id (mem_append_right _ yields), stay e memE id yields⟩

end sharing

/-! ## The conditions are met by the aliases -/

section conditions

variable {program : NativeProgram δ} {s : Interning δ} [DecidableEq δ]
  {fingerprint : ContinuationProtocolRole → List NativeType → NativeType → NativeExpr δ → Nat}
  (distinct : program.ids.Nodup)
  (run : internContinuations fingerprint program.role program.continuations = some s)

include distinct run

theorem interchangeable_of_canonicalId {i j : Nat}
    (same : canonicalId s.aliases i = canonicalId s.aliases j) : Interchangeable program i j :=
  ⟨_, (interns_of_internContinuations distinct run).congruence distinct, same⟩

theorem canonicalId_of_joined {i j : Nat} (joined : Joined program i j) :
    canonicalId s.aliases i = canonicalId s.aliases j := by
  rcases joined with rfl | ⟨acyclic, interchangeable⟩
  · rfl
  · exact merged_of_interchangeable distinct acyclic run interchangeable

theorem edgesAgree_of_kept {edges : List NativeCallResume} {id : Nat}
    (kept : EdgesKept program edges id) : EdgesAgree (canonicalId s.aliases) edges id := by
  unfold EdgesKept at kept
  unfold EdgesAgree
  cases found : edges.find? fun edge => edge.calleeContinuationId = id with
  | none =>
    rw [found] at kept
    exact fun edge mem same => kept edge mem (interchangeable_of_canonicalId distinct run same)
  | some first =>
    rw [found] at kept
    intro edge mem same
    obtain ⟨count, start, leads⟩ :=
      kept edge mem (interchangeable_of_canonicalId distinct run same)
    refine ⟨count, start, ?_⟩
    by_cases forwards : first.continuationId = first.calleeContinuationId
    · rw [if_pos forwards] at leads ⊢
      exact canonicalId_of_joined distinct run leads
    · rw [if_neg forwards] at leads ⊢
      exact ⟨fun merged => leads.1 (interchangeable_of_canonicalId distinct run merged),
        canonicalId_of_joined distinct run leads.2⟩

theorem agrees_of_kept {event : Event V} (kept : event.Kept program) :
    event.Agrees (canonicalId s.aliases) := by
  cases event with
  | entered id args => trivial
  | wrapped edges id => exact edgesAgree_of_kept distinct run kept

theorem yields_stay (first : YieldsFirst program) :
    ∀ body ∈ program.bodies, ∀ y ∈ yieldReferences body, canonicalId s.aliases y = y := by
  have interns := interns_of_internContinuations distinct run
  intro body mem y yields
  cases found : s.aliases.lookup y with
  | none => exact canonicalId_of_none interns.flat found
  | some next =>
    have same : canonicalId s.aliases y = canonicalId s.aliases next := by
      rw [canonicalId_of_lookup interns.flat found,
        canonicalId_of_none interns.flat (interns.flat y next found)]
    exact absurd (finishedBefore_of_alias distinct run found)
      (first body mem y yields next (interchangeable_of_canonicalId distinct run same))

theorem yieldsFirst_of_stay (acyclic : Acyclic program)
    (stay : ∀ body ∈ program.bodies, ∀ y ∈ yieldReferences body, canonicalId s.aliases y = y) :
    YieldsFirst program := by
  have interns := interns_of_internContinuations distinct run
  intro body mem y yields z interchangeable before
  have toYield : canonicalId s.aliases z = y :=
    (merged_of_interchangeable distinct acyclic run interchangeable).symm.trans (stay body mem y yields)
  cases found : s.aliases.lookup z with
  | none =>
    rw [canonicalId_of_none interns.flat found] at toYield
    rw [toYield] at before
    exact finishedBefore_asymm distinct run before before
  | some next =>
    rw [canonicalId_of_lookup interns.flat found] at toYield
    rw [toYield] at found
    exact finishedBefore_asymm distinct run before (finishedBefore_of_alias distinct run found)

end conditions

/-! ## Sharing preserves runs -/

section preservation

variable [DecidableEq δ]
  (fingerprint : ContinuationProtocolRole → List NativeType → NativeType → NativeExpr δ → Nat)

/-- Interning ends, and so does the resolution of aliases. Where yields are finished first,
everything referenced is there, and every run whose calls find the same edges is the same up to
the aliases; without cycles, nothing weaker than that keeps the yields. -/
theorem internEquivalentContinuations_preserves (program : NativeProgram δ)
    (distinct : program.ids.Nodup) :
    ∃ s, internContinuations fingerprint program.role program.continuations = some s ∧
      program.internEquivalentContinuations fingerprint = some (program.share s) ∧
      (∀ id, s.aliases.lookup (canonicalId s.aliases id) = none) ∧
      (program.Closed → YieldsFirst program → (program.share s).Closed) ∧
      (program.Closed → Acyclic program → (program.share s).Closed → YieldsFirst program) ∧
      (∀ id, (program.share s).body (canonicalId s.aliases id) =
        (program.body id).map (rewriteContinuationIds (canonicalId s.aliases))) ∧
      (YieldsFirst program → ∀ (V F σ : Type) (R : NativeRuntime δ V F σ) (fuel steps : Nat) (entry : Entry)
        (args : List V) (completions : List (Nat × List V)) (arrivals : List (List V)) (start : World V σ)
        (finish : World V σ) (outcome : Except (Stop V F) V),
        (program.drive R fuel steps entry args completions arrivals).call start = (finish, outcome) →
        (∀ event ∈ finish.events, event.Kept program) →
        ((program.share s).drive R fuel steps (entry.rename (canonicalId s.aliases)) args
            (completions.map fun frame => (canonicalId s.aliases frame.1, frame.2)) arrivals).call
          (start.rename (canonicalId s.aliases)) = (finish.rename (canonicalId s.aliases),
              outcome.mapError (Stop.rename (canonicalId s.aliases)))) := by
  obtain ⟨s, run⟩ : ∃ s, internContinuations fingerprint program.role program.continuations = some s :=
    internContinuations_ends distinct
  have interns := interns_of_internContinuations distinct run
  refine ⟨s, run, ?_, lookup_canonicalId interns.flat, fun closed first => ?_,
    fun closed acyclic closed' => ?_, fun id => (find_share interns distinct id).1,
    fun first V F σ R fuel steps entry args completions arrivals start finish outcome ran kept => ?_⟩
  · unfold NativeProgram.internEquivalentContinuations
    rw [run]
    rfl
  · exact (closed_share_iff interns distinct closed).mpr (yields_stay distinct run first)
  · exact yieldsFirst_of_stay distinct run acyclic ((closed_share_iff interns distinct closed).mp closed')
  · have renames := renames_share interns distinct (yields_stay distinct run first)
    have same := (renames.drive (R := R) fuel steps entry args completions arrivals).run start
    rw [ran] at same
    rw [same fun event mem => agrees_of_kept distinct run (kept event mem), mapOutcome_id]

end preservation

/-- Two functions that are suspended with one value and give it back. -/
def echoingProgram : NativeProgram Unit where
  functions := [.suspend .debug [] 1 [.param 0], .suspend .debug [] 2 [.param 0]]
  continuations := [⟨1, [.int], .int, .param 0⟩, ⟨2, [.int], .int, .param 0⟩]

def echoRuntime : NativeRuntime Unit Nat Unit Unit where
  perform := fun _ _ s => (s, .error ())
  isTrue := fun _ => true
  statusWord := fun _ => 0
  resolve := fun _ _ _ _ s => (s, .error ())
  reductionsExhausted := fun s => (s, false)
  holds := fun _ _ _ => true
  capacity := 64
  injects := fun _ _ => 0

theorem echoingProgram_shared : ∃ (shared : NativeProgram Unit) (rename : Nat → Nat),
    echoingProgram.internEquivalentContinuations (fun _ _ _ _ => 0) = some shared ∧ shared.Closed ∧
      (shared.drive echoRuntime 2 3 (.function 0) [5] [] [[]]).call ⟨(), []⟩ =
        (⟨(), [.entered (rename 1) [5]]⟩, .ok 5) := by
  have closed : echoingProgram.Closed := by
    intro body mem id found
    revert id
    revert body
    decide
  have first : YieldsFirst echoingProgram := by
    have none : ∀ body ∈ echoingProgram.bodies, yieldReferences body = [] := by decide
    intro body mem y found
    rw [none body mem] at found
    exact absurd found not_mem_nil
  obtain ⟨s, _, shared, _, closes, _, _, runs⟩ :=
    internEquivalentContinuations_preserves (fun _ _ _ _ => 0) echoingProgram (by decide)
  refine ⟨_, canonicalId s.aliases, shared, closes closed first, ?_⟩
  refine runs first Nat Unit Unit echoRuntime 2 3 (.function 0) [5] [] [[]] ⟨(), []⟩
    ⟨(), [.entered 1 [5]]⟩ (.ok 5) rfl fun event mem => ?_
  rw [mem_singleton.mp mem]
  trivial

/-- A tail call yields under one of two equal continuations, and the other is finished first. -/
def yieldingProgram : NativeProgram Unit where
  functions := [.tailCall 0 [] (some 1), .suspend .debug [] 2 []]
  continuations := [⟨1, [], .int, .operation (.int 7) []⟩, ⟨2, [], .int, .operation (.int 7) []⟩]

theorem yieldingProgram_loses_yield :
    ¬ ∀ program : NativeProgram Unit, program.ids.Nodup → program.Closed →
      ∀ shared, program.internEquivalentContinuations (fun _ _ _ _ => 0) = some shared →
        shared.Closed := by
  intro closes
  have closed : yieldingProgram.Closed := by
    intro body mem id found
    revert id
    revert body
    decide
  have interned : yieldingProgram.internEquivalentContinuations (fun _ _ _ _ => 0) =
      some ⟨yieldingProgram.functions, [⟨2, [], .int, .operation (.int 7) []⟩]⟩ := by
    decide +kernel
  have there := closes yieldingProgram (by decide) closed _ interned (.tailCall 0 [] (some 1))
    (by decide) 1 (by decide)
  revert there
  decide

end Terlan.NativeIr
